import Interaction.Pinning.Course
import Mathlib.Data.List.Basic

/-!
# Courses of work

What work alone comes to, what it can come to in company, and what it does when the build is
cancelled. Each is a predicate on courses that follows their constructors, and each is handed on by
the ways in which courses are put together.
-/

namespace Interaction

/-- Whether a call asks for the source of a contract. -/
def Call.isFetch : Call → Bool
  | .fetch _ _ _ => true
  | .height _ => false

namespace Course

variable {α β γ : Type} {session now : Session} {turn : Nat → Bool} {join : α → β → γ}
  {leaves : Session → Session}

/-- Whether there are events ahead. -/
def isUnderWay : Course α → Bool
  | ended _ => false
  | event _ _ => true

theorem isUnderWay_map (f : α → β) (work : Course α) :
    (work.map f).isUnderWay = work.isUnderWay := by
  cases work <;> rfl

theorem isUnderWay_andThen {work : Course α} {next : Session → α → Course β}
    (h : work.isUnderWay = true) : (work.andThen now next).isUnderWay = true := by
  cases work with
  | ended result => cases h
  | event leaves goes => rfl

/-- What is ahead of the work after so many events, and the session they have left. -/
def after : Nat → Course α → Session → Course α × Session
  | 0, work, session => (work, session)
  | _ + 1, ended result, session => (ended result, session)
  | n + 1, event leaves goes, session => (goes session).after n (leaves session)

theorem run_after (n : Nat) (work : Course α) (session : Session) :
    (work.after n session).1.run (work.after n session).2 = work.run session := by
  induction n generalizing work session with
  | zero => rfl
  | succ n ih =>
      cases work with
      | ended result => rfl
      | event leaves goes => exact ih (goes session) (leaves session)

/-! ### Work alone -/

theorem run_map (f : α → β) (work : Course α) (session : Session) :
    (work.map f).run session = (f (work.run session).1, (work.run session).2) := by
  induction work generalizing session with
  | ended result => rfl
  | event leaves goes ih => exact ih session (leaves session)

theorem run_andThen (work : Course α) (session : Session) (next : Session → α → Course β) :
    (work.andThen session next).run session =
      (next (work.run session).2 (work.run session).1).run (work.run session).2 := by
  induction work generalizing session with
  | ended result => rfl
  | event leaves goes ih => exact ih session (leaves session)

/-- What work comes to after more work is what the rest of it comes to. -/
theorem map_andThen (f : β → γ) (work : Course α) (now : Session)
    (next : Session → α → Course β) :
    (work.andThen now next).map f = work.andThen now fun later a => (next later a).map f := by
  induction work generalizing now with
  | ended result => rfl
  | event leaves goes ih =>
      rw [andThen, andThen, map]
      congr 1
      funext session
      exact ih session (leaves session)

/-- Work beside which nothing is left to do goes on as if it were alone. -/
theorem run_both_ended (turn : Nat → Bool) (join : α → β → γ) (work : Course (Except Failure α))
    (result : β) (session : Session) :
    (work.both turn join (ended (.ok result))).run session =
      ((work.run session).1.map fun found => join found result, (work.run session).2) := by
  induction work generalizing session with
  | ended outcome => cases outcome <;> rfl
  | event leaves goes ih => exact ih session (leaves session)

/-! ### What work can come to -/

/-- The results that work can come to, whatever sessions its events find. -/
inductive Reaches : Course α → α → Prop
  | ended (result : α) : Reaches (ended result) result
  | event {leaves : Session → Session} {goes : Session → Course α} {result : α}
      (session : Session) (h : Reaches (goes session) result) : Reaches (event leaves goes) result

@[simp]
theorem reaches_ended {result found : α} : (ended result).Reaches found ↔ result = found := by
  constructor
  · rintro ⟨⟩
    rfl
  · rintro rfl
    exact .ended result

theorem reaches_run (work : Course α) (session : Session) : work.Reaches (work.run session).1 := by
  induction work generalizing session with
  | ended result => exact .ended result
  | event leaves goes ih => exact .event session (ih session (leaves session))

theorem Reaches.of_map {f : α → β} {work : Course α} {result : β} (h : (work.map f).Reaches result) :
    ∃ found, work.Reaches found ∧ f found = result := by
  induction work with
  | ended found =>
      cases h
      exact ⟨found, .ended found, rfl⟩
  | event leaves goes ih =>
      cases h with
      | event session h =>
          obtain ⟨found, hfound, heq⟩ := ih session h
          exact ⟨found, .event session hfound, heq⟩

theorem Reaches.of_andThen {work : Course α} {next : Session → α → Course β} {result : β}
    (h : (work.andThen now next).Reaches result) :
    ∃ found later, work.Reaches found ∧ (next later found).Reaches result := by
  induction work generalizing now with
  | ended found => exact ⟨found, now, .ended found, h⟩
  | event leaves goes ih =>
      cases h with
      | event session h =>
          obtain ⟨found, later, hfound, hnext⟩ := ih session h
          exact ⟨found, later, .event session hfound, hnext⟩

/-- Works side by side succeed only if both do. By induction on the one and, while that waits, on
the other. -/
theorem Reaches.of_both {work : Course (Except Failure α)} {other : Course (Except Failure β)}
    {result : γ} (h : (work.both turn join other).Reaches (.ok result)) :
    ∃ a b, work.Reaches (.ok a) ∧ other.Reaches (.ok b) ∧ join a b = result := by
  induction work generalizing other with
  | ended outcome =>
      cases outcome with
      | error failure => cases h
      | ok a =>
          obtain ⟨found, hfound, heq⟩ := Reaches.of_map h
          cases found with
          | error failure => cases heq
          | ok b =>
              cases heq
              exact ⟨a, b, .ended _, hfound, rfl⟩
  | event leaves goes ih =>
      rw [both] at h
      induction other with
      | ended outcome =>
          cases outcome with
          | error failure => cases h
          | ok b =>
              cases h with
              | event session h =>
                  obtain ⟨a, b, ha, hb, heq⟩ := ih session h
                  exact ⟨a, b, .event session ha, hb, heq⟩
      | event leaves' goes' ih' =>
          cases h with
          | event session h =>
              dsimp only at h
              split at h
              · obtain ⟨a, b, ha, hb, heq⟩ := ih session h
                exact ⟨a, b, .event session ha, hb, heq⟩
              · obtain ⟨a, b, ha, hb, heq⟩ := ih' session h
                exact ⟨a, b, ha, .event session hb, heq⟩

theorem Reaches.of_all {turns : Nat → Nat → Bool} {works : List (Course (Except Failure α))}
    {results : List α} (h : (all turns works).Reaches (.ok results)) :
    List.Forall₂ (fun work result => Reaches work (.ok result)) works results := by
  induction works generalizing results with
  | nil =>
      cases h
      exact .nil
  | cons work more ih =>
      obtain ⟨a, others, ha, hothers, rfl⟩ := Reaches.of_both h
      exact .cons ha (ih hothers)

/-! ### Work in a build that is over -/

/-- In a build that is over the work makes no call, and it comes to such a result. -/
def Quiet (Q : α → Prop) : Course α → Prop
  | ended result => Q result
  | event leaves goes => ∀ session, session.context.isOver = true →
      (leaves session).context.isOver = true ∧ (leaves session).calls = session.calls ∧
        (goes session).Quiet Q

/-- In a build that is over the work makes no call and comes to nothing but the cancellation. -/
def GivesUp (work : Course (Except Failure α)) : Prop :=
  work.Quiet fun result => result = .error .cancelled

theorem Quiet.run {Q : α → Prop} {work : Course α} (h : work.Quiet Q)
    (hover : session.context.isOver = true) :
    Q (work.run session).1 ∧ (work.run session).2.calls = session.calls := by
  induction work generalizing session with
  | ended result => exact ⟨h, rfl⟩
  | event leaves goes ih =>
      obtain ⟨hleft, hcalls, hgoes⟩ := h session hover
      obtain ⟨hresult, hlast⟩ := ih session hgoes hleft
      exact ⟨hresult, hlast.trans hcalls⟩

theorem Quiet.map {Q : α → Prop} {R : β → Prop} {f : α → β} {work : Course α} (h : work.Quiet Q)
    (hf : ∀ a, Q a → R (f a)) : (work.map f).Quiet R := by
  induction work with
  | ended result => exact hf result h
  | event leaves goes ih =>
      intro session hover
      obtain ⟨hleft, hcalls, hgoes⟩ := h session hover
      exact ⟨hleft, hcalls, ih session hgoes⟩

/-- What follows some work stays quiet if it does so in every session that is over. Work that has
not ended yet does not look at the session before its next event. -/
theorem Quiet.andThen {Q : α → Prop} {R : β → Prop} {work : Course α}
    {next : Session → α → Course β} (h : work.Quiet Q)
    (hnow : work.isUnderWay = true ∨ now.context.isOver = true)
    (hnext : ∀ later a, later.context.isOver = true → Q a → (next later a).Quiet R) :
    (work.andThen now next).Quiet R := by
  induction work generalizing now with
  | ended result => exact hnext now result (hnow.resolve_left (by simp [isUnderWay])) h
  | event leaves goes ih =>
      intro session hover
      obtain ⟨hleft, hcalls, hgoes⟩ := h session hover
      exact ⟨hleft, hcalls, ih session hgoes (.inr hleft)⟩

/-- Two works side by side give up if each does or has its result already, except if both have. -/
theorem GivesUp.both {work : Course (Except Failure α)} {other : Course (Except Failure β)}
    (h : work.GivesUp) (hother : other.GivesUp ∨ ∃ b, other = ended (.ok b)) :
    (work.both turn join other).GivesUp := by
  induction work generalizing other with
  | ended result =>
      cases h
      exact rfl
  | event leaves goes ih =>
      rw [Course.both]
      induction other with
      | ended result =>
          cases result with
          | error failure =>
              obtain ⟨⟩ := hother.resolve_right (by simp)
              exact rfl
          | ok b =>
              intro session hover
              obtain ⟨hleft, hcalls, hgoes⟩ := h session hover
              exact ⟨hleft, hcalls, ih session hgoes (.inr ⟨b, rfl⟩)⟩
      | event leaves' goes' ih' =>
          have hgives := hother.resolve_right (by simp)
          intro session hover
          obtain ⟨hleft, hcalls, hgoes⟩ := h session hover
          obtain ⟨hleft', hcalls', hgoes'⟩ := hgives session hover
          dsimp only
          split
          · exact ⟨hleft, hcalls, ih session hgoes (.inl hgives)⟩
          · exact ⟨hleft', hcalls', ih' session (.inl hgoes')⟩

/-! ### Work that is cancelled on the way -/

/-- If the build is over before an event from which the work could still come to a result with
`P`, the work makes no further call and comes to a result with `Q`. -/
def Heeds (P Q : α → Prop) : Course α → Prop
  | ended _ => True
  | event leaves goes =>
    ((∃ result, (event leaves goes).Reaches result ∧ P result) → (event leaves goes).Quiet Q) ∧
      ∀ session, (goes session).Heeds P Q

theorem Heeds.after {P Q : α → Prop} {work : Course α} (h : work.Heeds P Q) (n : Nat)
    (session : Session) : (work.after n session).1.Heeds P Q := by
  induction n generalizing work session with
  | zero => exact h
  | succ n ih =>
      cases work with
      | ended result => exact h
      | event leaves goes => exact ih (h.2 session) (leaves session)

/-- Work that succeeds alone, cancelled on the way. -/
theorem Heeds.run_after {P Q : α → Prop} {work : Course α} (h : work.Heeds P Q)
    (hrun : P (work.run session).1) {n : Nat}
    (hunderWay : (work.after n session).1.isUnderWay = true) :
    (work.after n session).1.Quiet Q := by
  have hheeds := h.after n session
  have hreaches := reaches_run (work.after n session).1 (work.after n session).2
  rw [Course.run_after] at hreaches
  cases hrest : (work.after n session).1 with
  | ended result =>
      rw [hrest] at hunderWay
      cases hunderWay
  | event leaves goes =>
      rw [hrest] at hheeds hreaches
      exact hheeds.1 ⟨_, hreaches, hrun⟩

theorem Heeds.map {P Q : α → Prop} {P' Q' : β → Prop} {f : α → β} {work : Course α}
    (h : work.Heeds P Q) (hP : ∀ a, P' (f a) → P a) (hQ : ∀ a, Q a → Q' (f a)) :
    (work.map f).Heeds P' Q' := by
  induction work with
  | ended result => trivial
  | event leaves goes ih =>
      refine ⟨?_, fun session => ih session (h.2 session)⟩
      rintro ⟨result, hreaches, hresult⟩
      have hmapped : ((event leaves goes).map f).Reaches result := hreaches
      obtain ⟨found, hfound, rfl⟩ := hmapped.of_map
      exact (h.1 ⟨found, hfound, hP found hresult⟩).map hQ

theorem Heeds.andThen {P Q : α → Prop} {P' Q' : β → Prop} {work : Course α}
    {next : Session → α → Course β} (h : work.Heeds P Q)
    (hP : ∀ later a b, (next later a).Reaches b → P' b → P a)
    (hQ : ∀ later a, later.context.isOver = true → Q a → (next later a).Quiet Q')
    (hnext : ∀ later a, (next later a).Heeds P' Q') : (work.andThen now next).Heeds P' Q' := by
  induction work generalizing now with
  | ended result => exact hnext now result
  | event leaves goes ih =>
      refine ⟨?_, fun session => ih session (h.2 session)⟩
      rintro ⟨result, hreaches, hresult⟩
      have hfollowed : ((event leaves goes).andThen now next).Reaches result := hreaches
      obtain ⟨found, later, hfound, hlater⟩ := hfollowed.of_andThen
      have hquiet := h.1 ⟨found, hfound, hP later found result hlater hresult⟩
      have hall : ((event leaves goes).andThen now next).Quiet Q' := hquiet.andThen (.inl rfl) hQ
      exact hall

/-- Cancelled on the way, the work comes to nothing but the cancellation, if it could have
succeeded at all. -/
def HeedsCancel (work : Course (Except Failure α)) : Prop :=
  work.Heeds (fun result => ∃ a, result = .ok a) fun result => result = .error .cancelled

/-- Works side by side that could both succeed give up together. -/
theorem HeedsCancel.givesUp_both {goes : Session → Course (Except Failure α)}
    {other : Course (Except Failure β)} (h : (event leaves goes).HeedsCancel)
    (hother : other.HeedsCancel)
    (hreaches : ∃ result, ((event leaves goes).both turn join other).Reaches (.ok result)) :
    ((event leaves goes).both turn join other).GivesUp := by
  obtain ⟨result, hresult⟩ := hreaches
  obtain ⟨a, b, ha, hb, -⟩ := Reaches.of_both hresult
  refine GivesUp.both (h.1 ⟨_, ha, a, rfl⟩) ?_
  cases other with
  | ended outcome =>
      cases hb
      exact .inr ⟨b, rfl⟩
  | event leaves' goes' => exact .inl (hother.1 ⟨_, hb, b, rfl⟩)

theorem HeedsCancel.both {work : Course (Except Failure α)} {other : Course (Except Failure β)}
    (h : work.HeedsCancel) (hother : other.HeedsCancel) :
    (work.both turn join other).HeedsCancel := by
  induction work generalizing other with
  | ended result =>
      cases result with
      | error failure => trivial
      | ok a =>
          refine Heeds.map hother ?_ ?_
          · rintro (failure | b) ⟨c, hc⟩
            · cases hc
            · exact ⟨b, rfl⟩
          · rintro _ rfl
            rfl
  | event leaves goes ih =>
      have hgives {other : Course (Except Failure β)} (hother : other.HeedsCancel) :
          (∃ result, ((event leaves goes).both turn join other).Reaches result ∧
            ∃ c, result = .ok c) → ((event leaves goes).both turn join other).GivesUp := by
        rintro ⟨_, hreaches, c, rfl⟩
        exact h.givesUp_both hother ⟨c, hreaches⟩
      induction other with
      | ended outcome =>
          cases outcome with
          | error failure => trivial
          | ok b => exact ⟨hgives hother, fun session => ih session (h.2 session) trivial⟩
      | event leaves' goes' ih' =>
          refine ⟨hgives hother, ?_⟩
          intro session
          dsimp only
          split
          · exact ih session (h.2 session) hother
          · exact ih' session (hother.2 session)

theorem HeedsCancel.all {turns : Nat → Nat → Bool} {works : List (Course (Except Failure α))}
    (h : ∀ work ∈ works, work.HeedsCancel) : (all turns works).HeedsCancel := by
  induction works with
  | nil => trivial
  | cons work more ih =>
      exact (h work (.head _)).both (ih fun other hother => h other (.tail _ hother))

/-! ### Calls -/

/-- Between two sessions at most one call is made, and if it is a fetch, the rest of the work is
under way. -/
def OneCall (session later : Session) (rest : Course α) : Prop :=
  later.calls = session.calls ∨
    ∃ call, later.calls = call :: session.calls ∧
      (call.isFetch = true → rest.isUnderWay = true)

theorem OneCall.imp {later : Session} {rest : Course α} {other : Course β}
    (h : OneCall session later rest)
    (hother : rest.isUnderWay = true → other.isUnderWay = true) : OneCall session later other := by
  rcases h with hsame | ⟨call, hcall, hahead⟩
  · exact .inl hsame
  · exact .inr ⟨call, hcall, fun hfetch => hother (hahead hfetch)⟩

/-- Each event makes at most one call, and a fetch that is asked for has its answer ahead. -/
def Paced : Course α → Prop
  | ended _ => True
  | event leaves goes => ∀ session,
      OneCall session (leaves session) (goes session) ∧ (goes session).Paced

/-- Every call that work makes is the latest one at some time, and a fetch is then under way. -/
theorem Paced.exists_after {work : Course α} (h : work.Paced) {call : Call} {before : List Call}
    (hmade : call :: before <:+ (work.run session).2.calls)
    (hnew : ¬ call :: before <:+ session.calls) :
    ∃ n, (work.after n session).2.calls = call :: before ∧
      (call.isFetch = true → (work.after n session).1.isUnderWay = true) := by
  induction work generalizing session with
  | ended result => exact absurd hmade hnew
  | event leaves goes ih =>
      obtain ⟨hcalls, hgoes⟩ := h session
      by_cases hleft : call :: before <:+ (leaves session).calls
      · rcases hcalls with hsame | ⟨made, hcall, hanswer⟩
        · exact absurd (hsame ▸ hleft) hnew
        · refine ⟨1, ?_⟩
          rw [hcall, List.suffix_cons_iff] at hleft
          have heq := hleft.resolve_right hnew
          cases heq
          exact ⟨hcall, hanswer⟩
      · obtain ⟨n, hn⟩ := ih session hgoes hmade hleft
        exact ⟨n + 1, hn⟩

theorem Paced.map {f : α → β} {work : Course α} (h : work.Paced) : (work.map f).Paced := by
  induction work with
  | ended result => trivial
  | event leaves goes ih =>
      intro session
      obtain ⟨hcalls, hgoes⟩ := h session
      exact ⟨hcalls.imp fun hahead => (isUnderWay_map f _).trans hahead, ih session hgoes⟩

theorem Paced.andThen {work : Course α} {next : Session → α → Course β} (h : work.Paced)
    (hnext : ∀ later a, (next later a).Paced) : (work.andThen now next).Paced := by
  induction work generalizing now with
  | ended result => exact hnext now result
  | event leaves goes ih =>
      intro session
      obtain ⟨hcalls, hgoes⟩ := h session
      exact ⟨hcalls.imp isUnderWay_andThen, ih session hgoes⟩

/-- What is side by side is under way while one of both is and the other has not failed. -/
theorem isUnderWay_both {work : Course (Except Failure α)} {other : Course (Except Failure β)}
    (h : work.isUnderWay = true) (hother : other.isUnderWay = true ∨ ∃ b, other = ended (.ok b)) :
    (work.both turn join other).isUnderWay = true := by
  cases work with
  | ended result => cases h
  | event leaves goes =>
      cases other with
      | ended result =>
          obtain ⟨b, ⟨⟩⟩ := hother.resolve_left (by simp [isUnderWay])
          rfl
      | event leaves' goes' => rfl

theorem Paced.both {work : Course (Except Failure α)} {other : Course (Except Failure β)}
    (h : work.Paced) (hother : other.Paced) : (work.both turn join other).Paced := by
  induction work generalizing other with
  | ended result =>
      cases result with
      | error failure => trivial
      | ok a => exact hother.map
  | event leaves goes ih =>
      rw [Course.both]
      induction other with
      | ended result =>
          cases result with
          | error failure => trivial
          | ok b =>
              intro session
              obtain ⟨hcalls, hgoes⟩ := h session
              exact ⟨hcalls.imp fun hahead => isUnderWay_both hahead (.inr ⟨b, rfl⟩),
                ih session hgoes trivial⟩
      | event leaves' goes' ih' =>
          intro session
          dsimp only
          split
          · obtain ⟨hcalls, hgoes⟩ := h session
            exact ⟨hcalls.imp fun hahead => isUnderWay_both hahead (.inl rfl),
              ih session hgoes hother⟩
          · obtain ⟨hcalls, hgoes⟩ := hother session
            have hboth (hahead : (goes' session).isUnderWay = true) :
                ((event leaves goes).both turn join (goes' session)).isUnderWay = true :=
              isUnderWay_both rfl (.inl hahead)
            exact ⟨hcalls.imp hboth, ih' session hgoes⟩

theorem Paced.all {turns : Nat → Nat → Bool} {works : List (Course (Except Failure α))}
    (h : ∀ work ∈ works, work.Paced) : (all turns works).Paced := by
  induction works with
  | nil => trivial
  | cons work more ih =>
      exact (h work (.head _)).both (ih fun other hother => h other (.tail _ hother))

end Course

end Interaction
