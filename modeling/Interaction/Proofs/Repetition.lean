import Mathlib.Data.List.Basic

/-!
# Repetition on the spot

Two lists are the same runs if they differ only in how often an item is repeated on the spot. What
is done to them item by item comes to the same where doing it again changes nothing.
-/

namespace Interaction

variable {α β : Type}

/-- Lists of the same runs of equal items, which may be of different lengths. -/
inductive SameRuns : List α → List α → Prop
  | nil : SameRuns [] []
  | cons (a : α) {items others : List α} (h : SameRuns items others) :
      SameRuns (a :: items) (a :: others)
  | left {a : α} {items others : List α} (h : SameRuns (a :: items) others) :
      SameRuns (a :: a :: items) others
  | right {a : α} {items others : List α} (h : SameRuns items (a :: others)) :
      SameRuns items (a :: a :: others)

namespace SameRuns

variable {items others more rest : List α} {a : α}

theorem refl (items : List α) : SameRuns items items := by
  induction items with
  | nil => exact .nil
  | cons a items ih => exact .cons a ih

/-- A run has at least one item. -/
theorem eq_nil_iff (h : SameRuns items others) : items = [] ↔ others = [] := by
  induction h with
  | nil => rfl
  | cons a _ _ => simp
  | left _ ih => simpa using ih
  | right _ ih => simpa using ih

theorem map (f : α → β) (h : SameRuns items others) : SameRuns (items.map f) (others.map f) := by
  induction h with
  | nil => exact .nil
  | cons a _ ih => exact .cons (f a) ih
  | left _ ih => exact .left ih
  | right _ ih => exact .right ih

theorem filter (p : α → Bool) (h : SameRuns items others) :
    SameRuns (items.filter p) (others.filter p) := by
  induction h with
  | nil => exact .nil
  | cons a _ ih =>
      rw [List.filter_cons, List.filter_cons]
      split
      · exact .cons a ih
      · exact ih
  | @left a items others _ ih =>
      by_cases hkept : p a = true
      · rw [List.filter_cons_of_pos hkept] at ih
        rw [List.filter_cons_of_pos hkept, List.filter_cons_of_pos hkept]
        exact .left ih
      · rw [List.filter_cons_of_neg hkept]
        exact ih
  | @right a items others _ ih =>
      by_cases hkept : p a = true
      · rw [List.filter_cons_of_pos hkept] at ih
        rw [List.filter_cons_of_pos hkept, List.filter_cons_of_pos hkept]
        exact .right ih
      · rw [List.filter_cons_of_neg hkept]
        exact ih

theorem append (h : SameRuns items others) (hmore : SameRuns more rest) :
    SameRuns (items ++ more) (others ++ rest) := by
  induction h with
  | nil => exact hmore
  | cons a _ ih => exact .cons a ih
  | left _ ih => exact .left ih
  | right _ ih => exact .right ih

/-- Lists of one item only are the same runs if both have it. -/
theorem of_forall_eq (hitems : ∀ b ∈ items, b = a) (hothers : ∀ b ∈ others, b = a)
    (hnil : items = [] ↔ others = []) : SameRuns items others := by
  have hfirst {more : List α} (hmore : ∀ b ∈ more, b = a) : SameRuns [a] (a :: more) := by
    induction more with
    | nil => exact .refl [a]
    | cons b more ih =>
        cases hmore b (.head _)
        exact .right (ih fun c hc => hmore c (.tail _ hc))
  cases others with
  | nil =>
      rw [hnil.2 rfl]
      exact .nil
  | cons b others =>
      cases hothers b (.head _)
      induction items with
      | nil => cases hnil.1 rfl
      | cons c items ih =>
          cases hitems c (.head _)
          cases items with
          | nil => exact hfirst fun d hd => hothers d (.tail _ hd)
          | cons d items =>
              cases hitems d (.tail _ (.head _))
              exact .left (ih (fun e he => hitems e (.tail _ he)) (by simp))

/-- A fold does not see repetition if its step does nothing when it is done again. -/
theorem foldl_eq {f : β → α → β} (hf : ∀ b a, f (f b a) a = f b a) (h : SameRuns items others)
    (b : β) : items.foldl f b = others.foldl f b := by
  induction h generalizing b with
  | nil => rfl
  | cons a _ ih => exact ih (f b a)
  | @left a items others _ ih =>
      rw [← ih, List.foldl_cons, List.foldl_cons, hf, List.foldl_cons]
  | @right a items others _ ih =>
      rw [ih, List.foldl_cons, List.foldl_cons, List.foldl_cons, hf]

end SameRuns

end Interaction
