import Interaction.Proofs.Pinning.Concurrent

/-!
# What work asks of chains

How many calls of a kind work makes, whatever goes on beside it. Work that fails may have made fewer
than it would have made, so a number of calls bounds every run and is exact for the runs that come
to a certain result. Works side by side make the calls of all of them. The walk of an engine makes
no call but fetches on its network, and to learn the height it makes one call.
-/

namespace Interaction

/-- The network whose chain is asked. -/
def Call.network : Call → String
  | .fetch network _ _ => network
  | .height network => network

/-- Whether a result is no failure. -/
def Succeeds {α : Type} (result : Except Failure α) : Prop :=
  ∃ a, result = .ok a

namespace Course

variable {α β γ : Type} {kind : Call → Bool} {P : α → Prop} {Q : β → Prop} {session now : Session}
  {turn : Nat → Bool} {join : α → β → γ} {m n : Nat}

/-- The work makes at most so many calls of a kind, and just so many if it comes to such a
result. -/
def Spends (kind : Call → Bool) (P : α → Prop) : Course α → Nat → Prop
  | ended result, n => P result → n = 0
  | event leaves goes, n => ∀ session, ∃ spent left, n = spent + left ∧
      (leaves session).calls.countP kind = spent + session.calls.countP kind ∧
        (goes session).Spends kind P left

theorem Spends.run {work : Course α} (h : work.Spends kind P n) (session : Session) :
    (work.run session).2.calls.countP kind ≤ n + session.calls.countP kind ∧
      (P (work.run session).1 →
        (work.run session).2.calls.countP kind = n + session.calls.countP kind) := by
  induction work generalizing n session with
  | ended result =>
      refine ⟨Nat.le_add_left _ _, fun hresult => ?_⟩
      rw [h hresult, Nat.zero_add]
      rfl
  | event leaves goes ih =>
      obtain ⟨spent, left, rfl, hspent, hleft⟩ := h session
      obtain ⟨hle, heq⟩ := ih session hleft (leaves session)
      rw [hspent] at hle heq
      refine ⟨?_, fun hresult => ?_⟩
      · rw [Course.run]
        omega
      · rw [Course.run, heq hresult]
        omega

theorem Spends.map {f : α → β} {work : Course α} (h : work.Spends kind P n)
    (hf : ∀ a, Q (f a) → P a) : (work.map f).Spends kind Q n := by
  induction work generalizing n with
  | ended result => exact fun hresult => h (hf result hresult)
  | event leaves goes ih =>
      intro session
      obtain ⟨spent, left, hsum, hspent, hleft⟩ := h session
      exact ⟨spent, left, hsum, hspent, ih session hleft⟩

/-- What follows some work makes the calls that are left of it, and none are left if the work came
to such a result. -/
theorem Spends.andThen {work : Course α} {next : Session → α → Course β}
    (h : work.Spends kind P n)
    (hnext : ∀ later a left, (P a → left = 0) → (next later a).Spends kind Q left) :
    (work.andThen now next).Spends kind Q n := by
  induction work generalizing now n with
  | ended result => exact hnext now result n h
  | event leaves goes ih =>
      intro session
      obtain ⟨spent, left, hsum, hspent, hleft⟩ := h session
      exact ⟨spent, left, hsum, hspent, ih session hleft⟩

/-- Works side by side make the calls of both. By induction on the one and, while that waits, on
the other. -/
theorem Spends.both {work : Course (Except Failure α)} {other : Course (Except Failure β)}
    (h : work.Spends kind Succeeds n) (hother : other.Spends kind Succeeds m) :
    (work.both turn join other).Spends kind Succeeds (n + m) := by
  induction work generalizing other n m with
  | ended result =>
      cases result with
      | error failure => exact nofun
      | ok a =>
          rw [h ⟨a, rfl⟩, Nat.zero_add]
          refine hother.map ?_
          rintro (failure | b) ⟨c, hc⟩
          · cases hc
          · exact ⟨b, rfl⟩
  | event leaves goes ih =>
      rw [Course.both]
      induction other generalizing n m with
      | ended result =>
          cases result with
          | error failure => exact nofun
          | ok b =>
              intro session
              obtain ⟨spent, left, rfl, hspent, hleft⟩ := h session
              exact ⟨spent, left + m, Nat.add_assoc _ _ _, hspent, ih session hleft hother⟩
      | event leaves' goes' ih' =>
          intro session
          dsimp only
          split
          · obtain ⟨spent, left, rfl, hspent, hleft⟩ := h session
            exact ⟨spent, left + m, Nat.add_assoc _ _ _, hspent, ih session hleft hother⟩
          · obtain ⟨spent, left, rfl, hspent, hleft⟩ := hother session
            exact ⟨spent, n + left, Nat.add_left_comm _ _ _, hspent, ih' session h hleft⟩

/-- Work that makes single calls only adds to the calls that were made before. -/
theorem Paced.suffix_run {work : Course α} (h : work.Paced) (session : Session) :
    session.calls <:+ (work.run session).2.calls := by
  induction work generalizing session with
  | ended result => exact List.suffix_rfl
  | event leaves goes ih =>
      obtain ⟨hcalls, hgoes⟩ := h session
      refine List.IsSuffix.trans ?_ (ih session hgoes (leaves session))
      rcases hcalls with hsame | ⟨call, hcall, -⟩
      · exact hsame ▸ List.suffix_rfl
      · exact hcall ▸ List.suffix_cons call session.calls

end Course

namespace Engine

variable {engine : Engine} {conditions : Conditions} {kind : Call → Bool} {sites roots : List Site}
  {seen : List String} {levels height : Nat} {cache : Cache} {now : Session}

/-- The reading of the height is one call, if the build is not over. -/
theorem spends_latestHeightCourse :
    (engine.latestHeightCourse conditions).Spends kind Succeeds
      (kind (.height engine.network)).toNat := by
  intro session
  dsimp only
  unfold latestHeight
  split
  · exact ⟨0, _, (Nat.zero_add _).symm, (Nat.zero_add _).symm, nofun⟩
  · refine ⟨(kind (.height engine.network)).toNat, 0, rfl, ?_, fun _ => rfl⟩
    rw [Session.make, List.countP_cons, Nat.add_comm]
    cases kind (.height engine.network) <;> rfl

section Fetches

variable (hfetch : ∀ address name, kind (.fetch engine.network address name) = false)

include hfetch

/-- A level makes no call but fetches on the network. -/
theorem spends_gatherCourse {P : Except Failure (List (String × Fetched)) → Prop}
    (waiting : List (String × Site)) (underWay : List Task) (arrived : List (String × Fetched)) :
    (engine.gatherCourse conditions waiting underWay arrived).Spends kind P 0 := by
  refine gatherCourse_induction engine conditions
    (motive := fun _ _ _ level => level.Spends kind P 0) ?_ ?_ waiting underWay arrived
  · exact fun _ _ => rfl
  · intro waiting underWay arrived leaves goes hcourse hevent session
    cases hevent session with
    | fails i task failure hchoose htask harrival hlater hrest =>
        rw [hlater, hrest]
        exact ⟨0, 0, rfl, (Nat.zero_add _).symm, fun _ => rfl⟩
    | answers i task contract hchoose htask harrival hlater ih =>
        rw [hlater]
        exact ⟨0, 0, rfl, (Nat.zero_add _).symm, ih⟩
    | starts key site more hwaiting hchoose hlater hahead ih =>
        refine ⟨0, 0, rfl, ?_, ih⟩
        rw [hlater, Nat.zero_add]
        rcases calls_start_or engine conditions session key site with hsame | hcall
        · rw [hsame]
        · rw [hcall, List.countP_cons_of_neg (by simp [hfetch])]

theorem spends_discoverWithinCourse {P : Except Failure Unit × Cache → Prop} :
    (engine.discoverWithinCourse conditions levels seen sites cache now).Spends kind P 0 := by
  induction levels generalizing seen sites cache now with
  | zero => exact fun _ => rfl
  | succ levels ih =>
      rw [discoverWithinCourse]
      split
      · exact fun _ => rfl
      split
      · exact fun _ => rfl
      refine Course.Spends.andThen (P := fun _ => True) (spends_gatherCourse hfetch _ _ _) ?_
      intro later a left hleft
      rw [hleft trivial]
      cases a with
      | error failure => exact fun _ => rfl
      | ok fetched => exact ih

theorem spends_computePinsCourse {P : Except Failure (List PinRecord) × Cache → Prop} :
    (engine.computePinsCourse conditions roots height cache now).Spends kind P 0 := by
  refine Course.Spends.andThen (P := fun _ => True) (spends_discoverWithinCourse hfetch) ?_
  intro later a left hleft
  rw [hleft trivial]
  rcases a with ⟨failure | ⟨⟩, after⟩ <;> exact fun _ => rfl

end Fetches

end Engine

end Interaction
