import Interaction.Pinning.Gathering
import Mathlib.Data.List.Basic

/-!
# One level of fetches

A fetch that is chosen is one that is under way, and it answers what the chain answers, if it
answers a contract at all. Under calm conditions, in which nobody cancels and no call fails in
passing, a level of contracts that the chain answers for is always fetched.
-/

namespace Interaction

/-- Nobody cancels a build and no call fails in passing. Answers may arrive in any order. -/
structure Conditions.IsCalm (conditions : Conditions) : Prop where
  cancels : ∀ calls, conditions.cancels calls = false
  drops : ∀ calls, conditions.drops calls = false

namespace Engine

variable {engine : Engine} {conditions : Conditions} {session : Session}
  {waiting : List (String × Site)} {underWay : List Task} {arrived : List (String × Fetched)}

/-- A fetch that is answered next is one that is under way. -/
theorem choose_lt {pending started i : Nat}
    (h : engine.choose conditions session pending started = some i) : i < started := by
  unfold choose at h
  split at h
  · cases h
  next hstarted =>
    have hpos : 0 < started := Nat.pos_of_ne_zero hstarted
    split at h
    · cases h
      exact Nat.mod_lt _ hpos
    · split at h
      · cases h
        exact hpos
      · cases h

/-- Fetches that are under way are waited for once no more can be started. -/
theorem eq_zero_of_choose_zero {started : Nat}
    (h : engine.choose conditions session 0 started = none) : started = 0 := by
  unfold choose at h
  split at h
  next hstarted => exact hstarted
  next =>
    split at h
    · cases h
    · rw [if_pos (.inl rfl)] at h
      cases h

theorem key_start (engine : Engine) (conditions : Conditions) (session : Session) (key : String)
    (site : Site) : (engine.start conditions session key site).1.key = key := by
  unfold start
  split <;> rfl

/-- A fetch answers what the chain answers, if it answers a contract at all. -/
theorem inspect_of_start {key : String} {site : Site} {contract : Fetched}
    (h : (engine.start conditions session key site).1.answer = .ok contract) :
    engine.inspect site = .ok contract := by
  unfold start at h
  split at h
  · cases h
  · dsimp only at h
    split at h
    · cases h
    · exact h

theorem answer_of_arrival {task : Task} {contract : Fetched}
    (h : Task.arrival conditions session task = .ok contract) : task.answer = .ok contract := by
  unfold Task.arrival at h
  split at h
  · cases h
  · exact h

section Calm

variable (hcalm : conditions.IsCalm)

include hcalm

theorem context_start (key : String) (site : Site) :
    (engine.start conditions session key site).2.context = session.context := by
  unfold start
  split
  · rfl
  · simp [Session.make, hcalm.cancels]

theorem answer_start (hover : session.context.isOver = false) (key : String) (site : Site) :
    (engine.start conditions session key site).1.answer = engine.inspect site := by
  unfold start
  simp [hover, hcalm.drops]

/-- Nothing that happens on a level ends the build. -/
theorem context_gather :
    (engine.gather conditions session waiting underWay arrived).2.context = session.context := by
  fun_induction gather engine conditions session waiting underWay arrived with
  | case1 => rfl
  | case2 => rfl
  | case3 session waiting underWay arrived i hchoose task htask contract harrival ih => exact ih
  | case4 => rfl
  | case5 session underWay arrived key site more hchoose started ih =>
      rw [ih]
      exact context_start hcalm key site

/-- A level of contracts that the chain answers for is fetched. -/
theorem gather_complete (hover : session.context.isOver = false)
    (hwaiting : ∀ entry ∈ waiting, ∃ contract, engine.inspect entry.2 = .ok contract)
    (hunderWay : ∀ task ∈ underWay, ∃ contract, task.answer = .ok contract) :
    ∃ fetched, (engine.gather conditions session waiting underWay arrived).1 = .ok fetched := by
  fun_induction gather engine conditions session waiting underWay arrived with
  | case1 session waiting underWay arrived => exact ⟨arrived, rfl⟩
  | case2 session waiting underWay arrived i hchoose task htask failure harrival =>
      obtain ⟨contract, hanswer⟩ := hunderWay task (List.mem_of_getElem? htask)
      rw [Task.arrival, hover, hanswer] at harrival
      cases harrival
  | case3 session waiting underWay arrived i hchoose task htask contract harrival ih =>
      refine ih hover hwaiting ?_
      intro other hother
      exact hunderWay other (List.mem_of_mem_eraseIdx hother)
  | case4 session underWay arrived => exact ⟨arrived, rfl⟩
  | case5 session underWay arrived key site more hchoose started ih =>
      refine ih ?_ ?_ ?_
      · rw [context_start hcalm key site]
        exact hover
      · intro entry hentry
        exact hwaiting entry (.tail _ hentry)
      · intro task htask
        rcases List.mem_append.1 htask with htask | htask
        · exact hunderWay task htask
        · rw [List.mem_singleton.1 htask, answer_start hcalm hover key site]
          exact hwaiting (key, site) (.head _)

end Calm

end Engine

end Interaction
