import Interaction.Pinning.Concurrent
import Interaction.Proofs.Pinning.Course
import Interaction.Proofs.Pinning.Gathering
import Mathlib.Data.List.Perm.Basic

/-!
# Pinning beside other work

Alone in its session the course of an engine comes to what the engine does by itself. In company a
level that is fetched without a failure is still fetched as a whole, however its answers are
ordered: its keys come back, each once, and each with what the chain answers. And the course heeds
a cancellation at any time: a level asks for nothing more and gives up what is under way, and what
has arrived all the same does not get past the next check, of which assembly makes the last.
-/

namespace Interaction

namespace Engine

variable {engine : Engine} {conditions : Conditions} {session now : Session}
  {waiting : List (String × Site)} {underWay : List Task} {arrived fetched : List (String × Fetched)}
  {levels : Nat} {seen : List String} {sites roots : List Site} {height : Nat} {cache : Cache}

/-! ### One level -/

/-- What an event of a level can be, with a statement about what is ahead then: an answer that ends
the level, an answer that is taken, or the start of a fetch. -/
inductive GatherEvent (engine : Engine) (conditions : Conditions)
    (motive : List (String × Site) → List Task → List (String × Fetched) →
      Course (Except Failure (List (String × Fetched))) → Prop)
    (session : Session) (waiting : List (String × Site)) (underWay : List Task)
    (arrived : List (String × Fetched)) (later : Session)
    (rest : Course (Except Failure (List (String × Fetched)))) : Prop
  | fails (i : Nat) (task : Task) (failure : Failure)
      (choose : engine.choose conditions session waiting.length underWay.length = some i)
      (task_eq : underWay[i]? = some task)
      (arrival : Task.arrival conditions session task = .error failure)
      (later_eq : later = session.pass) (rest_eq : rest = .ended (.error failure))
  | answers (i : Nat) (task : Task) (contract : Fetched)
      (choose : engine.choose conditions session waiting.length underWay.length = some i)
      (task_eq : underWay[i]? = some task)
      (arrival : Task.arrival conditions session task = .ok contract)
      (later_eq : later = session.pass)
      (ih : motive waiting (underWay.eraseIdx i) (arrived ++ [(task.key, contract)]) rest)
  | starts (key : String) (site : Site) (more : List (String × Site))
      (waiting_eq : waiting = (key, site) :: more)
      (choose : engine.choose conditions session waiting.length underWay.length = none)
      (later_eq : later = (engine.start conditions session key site).2)
      (isUnderWay : rest.isUnderWay = true)
      (ih : motive more (underWay ++ [(engine.start conditions session key site).1]) arrived rest)

theorem isUnderWay_gatherCourse (engine : Engine) (conditions : Conditions)
    {waiting : List (String × Site)} {underWay : List Task} (arrived : List (String × Fetched))
    (h : waiting.length + underWay.length ≠ 0) :
    (engine.gatherCourse conditions waiting underWay arrived).isUnderWay = true := by
  rw [gatherCourse, if_neg h]
  rfl

/-- Induction on the events of a level. -/
theorem gatherCourse_induction (engine : Engine) (conditions : Conditions)
    {motive : List (String × Site) → List Task → List (String × Fetched) →
      Course (Except Failure (List (String × Fetched))) → Prop}
    (ended : ∀ arrived, motive [] [] arrived (.ended (.ok arrived)))
    (event : ∀ waiting underWay arrived leaves goes,
      engine.gatherCourse conditions waiting underWay arrived = .event leaves goes →
      (∀ session, engine.GatherEvent conditions motive session waiting underWay arrived
        (leaves session) (goes session)) →
      motive waiting underWay arrived (.event leaves goes))
    (waiting : List (String × Site)) (underWay : List Task) (arrived : List (String × Fetched)) :
    motive waiting underWay arrived (engine.gatherCourse conditions waiting underWay arrived) := by
  induction waiting, underWay, arrived using gatherCourse.induct engine conditions with
  | case1 waiting underWay arrived hempty =>
      obtain ⟨rfl, rfl⟩ : waiting = [] ∧ underWay = [] := by
        constructor <;> refine List.length_eq_zero_iff.1 ?_ <;> omega
      rw [gatherCourse, if_pos hempty]
      exact ended arrived
  | case2 waiting underWay arrived hsome hanswer hstart =>
      have hcourse := gatherCourse.eq_def engine conditions waiting underWay arrived
      rw [if_neg hsome] at hcourse
      rw [hcourse]
      refine event waiting underWay arrived _ _ hcourse ?_
      intro session
      cases hchoose : engine.choose conditions session waiting.length underWay.length with
      | some i =>
          dsimp only
          split
          next hnone =>
            have hlt := choose_lt hchoose
            rw [List.getElem?_eq_none_iff] at hnone
            omega
          next task htask =>
            cases harrival : Task.arrival conditions session task with
            | error failure => exact .fails i task failure hchoose htask harrival rfl rfl
            | ok contract =>
                exact .answers i task contract hchoose htask harrival rfl
                  (hanswer i task htask contract)
      | none =>
          cases waiting with
          | nil =>
              have hempty := eq_zero_of_choose_zero hchoose
              exact absurd (by simp [hempty]) hsome
          | cons entry more =>
              exact .starts entry.1 entry.2 more rfl hchoose rfl
                (isUnderWay_gatherCourse engine conditions arrived (by simp)) (hstart session)

/-- An answer that is a failure ends the level. -/
theorem gather_of_failure {i : Nat} {task : Task} {failure : Failure}
    (hchoose : engine.choose conditions session waiting.length underWay.length = some i)
    (htask : underWay[i]? = some task)
    (harrival : Task.arrival conditions session task = .error failure) :
    engine.gather conditions session waiting underWay arrived =
      (.error failure, session.pass) := by
  rw [gather.eq_def, hchoose]
  dsimp only
  split
  next hnone => cases htask.symm.trans hnone
  next other hother =>
    cases htask.symm.trans hother
    rw [harrival]

/-- An answer that is a contract is taken in. -/
theorem gather_of_arrival {i : Nat} {task : Task} {contract : Fetched}
    (hchoose : engine.choose conditions session waiting.length underWay.length = some i)
    (htask : underWay[i]? = some task)
    (harrival : Task.arrival conditions session task = .ok contract) :
    engine.gather conditions session waiting underWay arrived =
      engine.gather conditions session.pass waiting (underWay.eraseIdx i)
        (arrived ++ [(task.key, contract)]) := by
  rw [gather.eq_def, hchoose]
  dsimp only
  split
  next hnone => cases htask.symm.trans hnone
  next other hother =>
    cases htask.symm.trans hother
    rw [harrival]

theorem gather_of_start {key : String} {site : Site}
    (hchoose : engine.choose conditions session (waiting.length + 1) underWay.length = none) :
    engine.gather conditions session ((key, site) :: waiting) underWay arrived =
      engine.gather conditions (engine.start conditions session key site).2 waiting
        (underWay ++ [(engine.start conditions session key site).1]) arrived := by
  rw [gather, List.length_cons, hchoose]

/-- Alone, the course of a level comes to what the level does. -/
theorem run_gatherCourse (waiting : List (String × Site)) (underWay : List Task)
    (arrived : List (String × Fetched)) (session : Session) :
    (engine.gatherCourse conditions waiting underWay arrived).run session =
      engine.gather conditions session waiting underWay arrived := by
  revert session
  refine gatherCourse_induction engine conditions (motive := fun waiting underWay arrived level =>
    ∀ session, level.run session = engine.gather conditions session waiting underWay arrived) ?_ ?_
      waiting underWay arrived
  · intro arrived session
    rw [gather]
    rfl
  · intro waiting underWay arrived leaves goes hcourse hevent session
    rw [Course.run]
    cases hevent session with
    | fails i task failure hchoose htask harrival hlater hrest =>
        rw [gather_of_failure hchoose htask harrival, hlater, hrest]
        rfl
    | answers i task contract hchoose htask harrival hlater ih =>
        rw [gather_of_arrival hchoose htask harrival, hlater, ih]
    | starts key site more hwaiting hchoose hlater hahead ih =>
        rw [hlater, ih]
        subst hwaiting
        rw [gather_of_start hchoose]

/-- A level that can succeed has no failure under way. -/
theorem answer_of_reaches_gatherCourse (waiting : List (String × Site)) (underWay : List Task)
    (arrived : List (String × Fetched)) :
    (engine.gatherCourse conditions waiting underWay arrived).Reaches (.ok fetched) →
      ∀ task ∈ underWay, ∃ contract, task.answer = .ok contract := by
  refine gatherCourse_induction engine conditions (motive := fun _ underWay _ level =>
    level.Reaches (.ok fetched) → ∀ task ∈ underWay, ∃ contract, task.answer = .ok contract) ?_ ?_
      waiting underWay arrived
  · intro arrived hreaches
    nofun
  · intro waiting underWay arrived leaves goes hcourse hevent hreaches
    cases hreaches with
    | event session hreaches =>
        cases hevent session with
        | fails i task failure hchoose htask harrival hlater hrest =>
            rw [hrest] at hreaches
            cases hreaches
        | answers i task contract hchoose htask harrival hlater ih =>
            obtain ⟨hlt, hget⟩ := List.getElem?_eq_some_iff.1 htask
            intro other hother
            have hback := (List.getElem_cons_eraseIdx_perm hlt).mem_iff.2 hother
            rcases List.mem_cons.1 hback with rfl | hback
            · rw [hget]
              exact ⟨contract, answer_of_arrival harrival⟩
            · exact ih hreaches other hback
        | starts key site more hwaiting hchoose hlater hahead ih =>
            exact fun task htask => ih hreaches task (List.mem_append_left _ htask)

/-- What holds of each answer holds of all that a level fetches. -/
theorem forall_of_reaches_gatherCourse {Q : String × Fetched → Prop}
    (waiting : List (String × Site)) (underWay : List Task) (arrived : List (String × Fetched)) :
    (engine.gatherCourse conditions waiting underWay arrived).Reaches (.ok fetched) →
      (∀ entry ∈ waiting, ∀ contract, engine.inspect entry.2 = .ok contract →
        Q (entry.1, contract)) →
      (∀ task ∈ underWay, ∀ contract, task.answer = .ok contract → Q (task.key, contract)) →
      (∀ entry ∈ arrived, Q entry) → ∀ entry ∈ fetched, Q entry := by
  refine gatherCourse_induction engine conditions (motive := fun waiting underWay arrived level =>
    level.Reaches (.ok fetched) →
      (∀ entry ∈ waiting, ∀ contract, engine.inspect entry.2 = .ok contract →
        Q (entry.1, contract)) →
      (∀ task ∈ underWay, ∀ contract, task.answer = .ok contract → Q (task.key, contract)) →
      (∀ entry ∈ arrived, Q entry) → ∀ entry ∈ fetched, Q entry) ?_ ?_ waiting underWay arrived
  · intro arrived hreaches _ _ harrived
    cases hreaches
    exact harrived
  · intro waiting underWay arrived leaves goes hcourse hevent hreaches hwaiting hunderWay harrived
    cases hreaches with
    | event session hreaches =>
        cases hevent session with
        | fails i task failure hchoose htask harrival hlater hrest =>
            rw [hrest] at hreaches
            cases hreaches
        | answers i task contract hchoose htask harrival hlater ih =>
            refine ih hreaches hwaiting ?_ ?_
            · intro other hother
              exact hunderWay other (List.mem_of_mem_eraseIdx hother)
            · intro entry hentry
              rcases List.mem_append.1 hentry with hentry | hentry
              · exact harrived entry hentry
              · rw [List.mem_singleton.1 hentry]
                exact hunderWay task (List.mem_of_getElem? htask) contract
                  (answer_of_arrival harrival)
        | starts key site more hwaitingEq hchoose hlater hahead ih =>
            subst hwaitingEq
            refine ih hreaches ?_ ?_ harrived
            · intro entry hentry
              exact hwaiting entry (.tail _ hentry)
            · intro task htask contract hanswer
              rcases List.mem_append.1 htask with htask | htask
              · exact hunderWay task htask contract hanswer
              · rw [List.mem_singleton.1 htask] at hanswer ⊢
                rw [key_start]
                exact hwaiting (key, site) (.head _) contract (inspect_of_start hanswer)

/-- The keys of a level come back, each as often as it was asked for. -/
theorem perm_of_reaches_gatherCourse (waiting : List (String × Site)) (underWay : List Task)
    (arrived : List (String × Fetched)) :
    (engine.gatherCourse conditions waiting underWay arrived).Reaches (.ok fetched) →
      (fetched.map Prod.fst).Perm
        (arrived.map Prod.fst ++ (underWay.map Task.key ++ waiting.map Prod.fst)) := by
  refine gatherCourse_induction engine conditions (motive := fun waiting underWay arrived level =>
    level.Reaches (.ok fetched) → (fetched.map Prod.fst).Perm
      (arrived.map Prod.fst ++ (underWay.map Task.key ++ waiting.map Prod.fst))) ?_ ?_
      waiting underWay arrived
  · intro arrived hreaches
    cases hreaches
    simp
  · intro waiting underWay arrived leaves goes hcourse hevent hreaches
    cases hreaches with
    | event session hreaches =>
        cases hevent session with
        | fails i task failure hchoose htask harrival hlater hrest =>
            rw [hrest] at hreaches
            cases hreaches
        | answers i task contract hchoose htask harrival hlater ih =>
            obtain ⟨hlt, hget⟩ := List.getElem?_eq_some_iff.1 htask
            have hback : (underWay.map Task.key).Perm
                (task.key :: (underWay.eraseIdx i).map Task.key) := by
              rw [← hget, ← List.map_cons]
              exact (List.getElem_cons_eraseIdx_perm hlt).symm.map _
            refine (ih hreaches).trans ?_
            rw [List.map_append, List.append_assoc]
            refine List.Perm.append_left _ ?_
            exact (hback.append_right _).symm
        | starts key site more hwaitingEq hchoose hlater hahead ih =>
            subst hwaitingEq
            refine (ih hreaches).trans ?_
            rw [List.map_append, List.map_singleton, key_start, List.map_cons, List.append_assoc,
              List.singleton_append]

/-- What a level fetches alone is among what it can fetch in company. -/
theorem reaches_of_gather
    (h : (engine.gather conditions session waiting underWay arrived).1 = .ok fetched) :
    (engine.gatherCourse conditions waiting underWay arrived).Reaches (.ok fetched) := by
  rw [← h, ← run_gatherCourse]
  exact Course.reaches_run _ session

end Engine

/-- Whether a result is the cancellation, if it is a failure. -/
def Halts {α : Type} (result : Except Failure α) : Prop :=
  ∀ failure, result = .error failure → failure = .cancelled

namespace Engine

variable {engine : Engine} {conditions : Conditions} {session now : Session} {levels : Nat}
  {seen : List String} {sites roots : List Site} {height : Nat} {cache : Cache}

/-- A level of a build that is over asks for nothing, and fails only with the cancellation. -/
theorem quiet_gatherCourse (waiting : List (String × Site)) (underWay : List Task)
    (arrived : List (String × Fetched)) :
    (∀ task ∈ underWay, Halts task.answer) →
      (engine.gatherCourse conditions waiting underWay arrived).Quiet Halts := by
  refine gatherCourse_induction engine conditions (motive := fun _ underWay _ level =>
    (∀ task ∈ underWay, Halts task.answer) → level.Quiet Halts) ?_ ?_ waiting underWay arrived
  · exact fun arrived _ => nofun
  · intro waiting underWay arrived leaves goes hcourse hevent hunderWay session hover
    cases hevent session with
    | fails i task failure hchoose htask harrival hlater hrest =>
        rw [hlater, hrest]
        refine ⟨hover, rfl, ?_⟩
        rintro _ ⟨⟩
        unfold Task.arrival at harrival
        split at harrival
        · cases harrival
          rfl
        · exact hunderWay task (List.mem_of_getElem? htask) failure harrival
    | answers i task contract hchoose htask harrival hlater ih =>
        rw [hlater]
        refine ⟨hover, rfl, ih ?_⟩
        exact fun other hother => hunderWay other (List.mem_of_mem_eraseIdx hother)
    | starts key site more hwaiting hchoose hlater hahead ih =>
        have hstarted : engine.start conditions session key site =
            (⟨key, .error .cancelled, false⟩, session.pass) := by
          rw [start, if_pos hover]
        rw [hstarted] at hlater ih
        rw [hlater]
        refine ⟨hover, rfl, ih ?_⟩
        intro task htask
        rcases List.mem_append.1 htask with htask | htask
        · exact hunderWay task htask
        · rw [List.mem_singleton.1 htask]
          rintro _ ⟨⟩
          rfl

/-- If a level is cancelled on the way, it either fails with the cancellation or has all of its
answers already. -/
theorem heeds_gatherCourse (waiting : List (String × Site)) (underWay : List Task)
    (arrived : List (String × Fetched)) :
    (engine.gatherCourse conditions waiting underWay arrived).Heeds
      (fun result => ∃ fetched, result = .ok fetched) Halts := by
  refine gatherCourse_induction engine conditions (motive := fun _ _ _ level => level.Heeds
    (fun result => ∃ fetched, result = .ok fetched) Halts) ?_ ?_ waiting underWay arrived
  · exact fun _ => trivial
  · intro waiting underWay arrived leaves goes hcourse hevent
    constructor
    · rintro ⟨_, hreaches, fetched, rfl⟩
      rw [← hcourse] at hreaches ⊢
      refine quiet_gatherCourse waiting underWay arrived ?_
      intro task htask failure hfailure
      obtain ⟨contract, hcontract⟩ :=
        answer_of_reaches_gatherCourse waiting underWay arrived hreaches task htask
      cases hcontract.symm.trans hfailure
    · intro session
      cases hevent session with
      | fails i task failure hchoose htask harrival hlater hrest =>
          rw [hrest]
          trivial
      | answers i task contract hchoose htask harrival hlater ih => exact ih
      | starts key site more hwaiting hchoose hlater hahead ih => exact ih

theorem calls_start_or (engine : Engine) (conditions : Conditions) (session : Session)
    (key : String) (site : Site) :
    (engine.start conditions session key site).2.calls = session.calls ∨
      (engine.start conditions session key site).2.calls =
        .fetch engine.network site.address site.name :: session.calls := by
  unfold start
  split
  · exact .inl rfl
  · exact .inr rfl

/-- A level makes one call at a time, and each has its answer ahead. -/
theorem paced_gatherCourse (waiting : List (String × Site)) (underWay : List Task)
    (arrived : List (String × Fetched)) :
    (engine.gatherCourse conditions waiting underWay arrived).Paced := by
  refine gatherCourse_induction engine conditions (motive := fun _ _ _ level => level.Paced) ?_ ?_
    waiting underWay arrived
  · exact fun _ => trivial
  · intro waiting underWay arrived leaves goes hcourse hevent session
    cases hevent session with
    | fails i task failure hchoose htask harrival hlater hrest =>
        rw [hlater, hrest]
        exact ⟨.inl rfl, trivial⟩
    | answers i task contract hchoose htask harrival hlater ih =>
        rw [hlater]
        exact ⟨.inl rfl, ih⟩
    | starts key site more hwaiting hchoose hlater hahead ih =>
        rw [hlater]
        refine ⟨?_, ih⟩
        refine (calls_start_or engine conditions session key site).imp_right ?_
        exact fun hcall => ⟨_, hcall, fun _ => hahead⟩

/-! ### A walk -/

/-- Alone, the course of a walk comes to what the walk does. -/
theorem run_discoverWithinCourse (levels : Nat) (seen : List String) (sites : List Site)
    (cache : Cache) (session : Session) :
    (engine.discoverWithinCourse conditions levels seen sites cache session).run session =
      (((engine.discoverWithin conditions levels seen sites cache session).1,
        (engine.discoverWithin conditions levels seen sites cache session).2.1),
        (engine.discoverWithin conditions levels seen sites cache session).2.2) := by
  induction levels generalizing seen sites cache session with
  | zero => rfl
  | succ levels ih =>
      rw [discoverWithinCourse, discoverWithin]
      by_cases hsites : sites = []
      · rw [if_pos hsites, if_pos hsites]
        rfl
      by_cases hover : session.context.isOver = true
      · rw [if_neg hsites, if_neg hsites, if_pos hover, if_pos hover]
        rfl
      rw [if_neg hsites, if_neg hsites, if_neg hover, if_neg hover]
      dsimp only
      rw [Course.run_andThen, run_gatherCourse]
      rcases engine.gather conditions session (engine.sortOut cache seen sites).missing [] [] with
        ⟨failure | fetched, later⟩
      · rfl
      · exact ih _ _ _ _

/-- A walk in a build that is over goes no further. -/
theorem quiet_discoverWithinCourse (h : now.context.isOver = true) :
    (engine.discoverWithinCourse conditions levels seen sites cache now).Quiet
      fun result => Halts result.1 := by
  cases levels with
  | zero => nofun
  | succ levels =>
      rw [discoverWithinCourse, if_pos h]
      split
      · nofun
      · rintro _ ⟨⟩
        rfl

/-- If a walk is cancelled on the way, it either fails with the cancellation or is at its end. -/
theorem heeds_discoverWithinCourse (levels : Nat) (seen : List String) (sites : List Site)
    (cache : Cache) (now : Session) :
    (engine.discoverWithinCourse conditions levels seen sites cache now).Heeds
      (fun result => result.1 = .ok ()) fun result => Halts result.1 := by
  induction levels generalizing seen sites cache now with
  | zero => trivial
  | succ levels ih =>
      rw [discoverWithinCourse]
      split
      · trivial
      split
      · trivial
      refine Course.Heeds.andThen (heeds_gatherCourse _ _ _) ?_ ?_ ?_
      · rintro later (failure | fetched) result hreaches hresult
        · rw [Course.reaches_ended] at hreaches
          subst hreaches
          cases hresult
        · exact ⟨fetched, rfl⟩
      · rintro later (failure | fetched) hover hhalts
        · rintro _ ⟨⟩
          exact hhalts failure rfl
        · exact quiet_discoverWithinCourse hover
      · rintro later (failure | fetched)
        · trivial
        · exact ih _ _ _ later

theorem paced_discoverWithinCourse (levels : Nat) (seen : List String) (sites : List Site)
    (cache : Cache) (now : Session) :
    (engine.discoverWithinCourse conditions levels seen sites cache now).Paced := by
  induction levels generalizing seen sites cache now with
  | zero => trivial
  | succ levels ih =>
      rw [discoverWithinCourse]
      split
      · trivial
      split
      · trivial
      refine Course.Paced.andThen (paced_gatherCourse _ _ _) ?_
      rintro later (failure | fetched)
      · trivial
      · exact ih _ _ _ later

/-! ### A run -/

/-- Alone, the course of a run comes to what the run does. -/
theorem run_computePinsCourse (roots : List Site) (height : Nat) (cache : Cache)
    (session : Session) :
    (engine.computePinsCourse conditions roots height cache session).run session =
      (((engine.computePins conditions roots height cache session).1,
        (engine.computePins conditions roots height cache session).2.1),
        (engine.computePins conditions roots height cache session).2.2) := by
  rw [computePinsCourse, computePins]
  dsimp only
  rw [Course.run_andThen, run_discoverWithinCourse, discover]
  dsimp only
  rcases engine.discoverWithin conditions (cache.size + engine.chain.size + 2) []
    ((roots.map Site.normalized).filter fun site =>
      (cache.pin? (site.key engine.network)).isNone) cache session with
    ⟨failure | ⟨⟩, after, last⟩
  · rfl
  · dsimp only [Course.run]
    rcases engine.assembleRoots last.context (roots.map Site.normalized) after with
      ⟨failure | trees, final⟩ <;> rfl

/-- No tree is assembled in a build that is over. -/
theorem assembleRoots_of_isOver {context : Context} (h : context.isOver = true)
    (hroots : roots ≠ []) :
    (engine.assembleRoots context roots cache).1 = .error .cancelled := by
  obtain ⟨root, more, rfl⟩ := List.exists_cons_of_ne_nil hroots
  rw [assembleRoots, Assembly.forEach, Assembly.assemble, Assembly.within, if_pos h]

/-- A run that is cancelled on the way gives up before it assembles a tree. -/
theorem heeds_computePinsCourse (hroots : roots ≠ []) (height : Nat) (cache : Cache)
    (now : Session) :
    (engine.computePinsCourse conditions roots height cache now).Heeds
      (fun result => ∃ records, result.1 = .ok records)
      fun result => result.1 = .error .cancelled := by
  refine Course.Heeds.andThen (heeds_discoverWithinCourse _ _ _ _ _) ?_ ?_ ?_
  · rintro later ⟨failure | ⟨⟩, after⟩ result hreaches ⟨records, hresult⟩
    · rw [Course.reaches_ended] at hreaches
      subst hreaches
      cases hresult
    · rfl
  · rintro later ⟨failure | ⟨⟩, after⟩ hover hhalts
    · exact congrArg _ (hhalts failure rfl)
    · have hsome : roots.map Site.normalized ≠ [] := mt List.map_eq_nil_iff.1 hroots
      exact congrArg (Except.map _) (assembleRoots_of_isOver hover hsome)
  · rintro later ⟨failure | ⟨⟩, after⟩ <;> trivial

theorem paced_computePinsCourse (roots : List Site) (height : Nat) (cache : Cache)
    (now : Session) :
    (engine.computePinsCourse conditions roots height cache now).Paced := by
  refine Course.Paced.andThen (paced_discoverWithinCourse _ _ _ _ _) ?_
  rintro later ⟨failure | ⟨⟩, after⟩ <;> trivial

/-! ### The height -/

/-- A height that is to be read when the build is over is not asked for. -/
theorem heedsCancel_latestHeightCourse :
    (engine.latestHeightCourse conditions).HeedsCancel := by
  refine ⟨fun _ session hover => ?_, fun session => trivial⟩
  have hunread : engine.latestHeight conditions session = (.error .cancelled, session) := by
    rw [latestHeight, if_pos hover]
  dsimp only
  rw [hunread]
  exact ⟨hover, rfl, rfl⟩

theorem paced_latestHeightCourse : (engine.latestHeightCourse conditions).Paced := by
  intro session
  refine ⟨?_, trivial⟩
  dsimp only
  unfold latestHeight
  split
  · exact .inl rfl
  · exact .inr ⟨.height engine.network, rfl, nofun⟩

end Engine

end Interaction
