import Interaction.Source.Parser
import Mathlib.Data.List.Basic

/-!
# What a parser leaves

A parser takes characters from the front and leaves the rest as it is, so what it leaves is an end
of what it was given: it `Consumes`. Most parsers take at least one character when they succeed:
they `Advances`. Both are said once for each way of putting parsers together, and for a parser that
is put together they follow its parts.
-/

namespace Interaction

namespace Source

namespace Parser

variable {α β : Type} {s rest : List Char} {a : α} {b : β} {p q : Parser α}

theorem bind_eq_some_iff {q : α → Parser β} :
    (p >>= q) s = some (b, rest) ↔ ∃ a mid, p s = some (a, mid) ∧ q a mid = some (b, rest) := by
  change (p s).bind (fun found => q found.1 found.2) = _ ↔ _
  rw [Option.bind_eq_some_iff]
  exact ⟨fun ⟨found, h⟩ => ⟨found.1, found.2, h⟩, fun ⟨a, mid, h⟩ => ⟨(a, mid), h⟩⟩

theorem map_eq_some_iff {f : α → β} :
    (f <$> p) s = some (b, rest) ↔ ∃ a, p s = some (a, rest) ∧ f a = b := by
  change (p s).bind (fun found => some (f found.1, found.2)) = _ ↔ _
  rw [Option.bind_eq_some_iff]
  constructor
  · rintro ⟨⟨a, mid⟩, h, he⟩
    cases he
    exact ⟨a, h, rfl⟩
  · rintro ⟨a, h, rfl⟩
    exact ⟨(a, rest), h, rfl⟩

theorem orElse_eq_some_iff :
    (p <|> q) s = some (a, rest) ↔
      p s = some (a, rest) ∨ p s = none ∧ q s = some (a, rest) := by
  change (p s <|> q s) = _ ↔ _
  cases p s <;> simp

theorem after?_eq_some_iff {text : List Char} : after? text s = some rest ↔ s = text ++ rest := by
  induction text generalizing s with
  | nil => rw [after?, Option.some_inj, List.nil_append]
  | cons c text ih =>
      cases s with
      | nil => exact iff_of_false (fun h => by cases h) (fun h => by cases h)
      | cons d s =>
          rw [after?]
          split
          next hc => rw [ih, hc, List.cons_append, List.cons_inj_right]
          next hc => exact iff_of_false (fun h => by cases h) fun h => hc (List.cons.inj h).1.symm

theorem exactly_eq_some_iff {text : String} :
    exactly text s = some ((), rest) ↔ s = text.toList ++ rest := by
  rw [exactly, Option.map_eq_some_iff, ← after?_eq_some_iff]
  constructor
  · rintro ⟨mid, h, he⟩
    cases he
    exact h
  · intro h
    exact ⟨rest, h, rfl⟩

theorem one_eq_some_iff {test : Char → Bool} {c : Char} :
    one test s = some (c, rest) ↔ s = c :: rest ∧ test c = true := by
  cases s with
  | nil => simp [one]
  | cons d s =>
      rw [one]
      by_cases hd : test d = true
      · rw [if_pos hd, Option.some_inj, Prod.mk.injEq]
        exact ⟨fun ⟨h, hs⟩ => ⟨by rw [h, hs], h ▸ hd⟩, fun ⟨h, _⟩ => List.cons.inj h⟩
      · rw [if_neg hd]
        refine iff_of_false nofun ?_
        rintro ⟨h, hc⟩
        rw [(List.cons.inj h).1] at hd
        exact hd hc

theorem maybe_eq_some_iff {found : Option α} :
    maybe p s = some (found, rest) ↔
      (∃ a, p s = some (a, rest) ∧ found = some a) ∨ p s = none ∧ found = none ∧ rest = s := by
  rw [maybe]
  cases hp : p s with
  | none => simp [eq_comm]
  | some read => obtain ⟨a, after⟩ := read; simp [eq_comm, and_comm]

/-- A parser leaves an end of what it was given. -/
def Consumes (p : Parser α) : Prop :=
  ∀ ⦃s a rest⦄, p s = some (a, rest) → rest <:+ s

/-- A parser takes at least one character, and leaves an end of what it was given. -/
def Advances (p : Parser α) : Prop :=
  ∀ ⦃s a rest⦄, p s = some (a, rest) → rest <:+ s ∧ rest.length < s.length

theorem Advances.consumes (h : Advances p) : Consumes p :=
  fun _ _ _ hp => (h hp).1

theorem Consumes.length_le (h : Consumes p) (hp : p s = some (a, rest)) :
    rest.length ≤ s.length :=
  (h hp).length_le

namespace Consumes

theorem pure (a : α) : Consumes (pure a) := by
  intro s b rest h
  cases h
  exact List.suffix_rfl

theorem bind {q : α → Parser β} (hp : Consumes p) (hq : ∀ a, Consumes (q a)) :
    Consumes (p >>= q) := by
  intro s b rest h
  obtain ⟨a, mid, hfirst, hnext⟩ := bind_eq_some_iff.1 h
  exact (hq a hnext).trans (hp hfirst)

theorem map {f : α → β} (hp : Consumes p) : Consumes (f <$> p) := by
  intro s b rest h
  obtain ⟨a, hfirst, -⟩ := map_eq_some_iff.1 h
  exact hp hfirst

theorem orElse (hp : Consumes p) (hq : Consumes q) : Consumes (p <|> q) := by
  intro s a rest h
  rcases orElse_eq_some_iff.1 h with h | ⟨-, h⟩
  · exact hp h
  · exact hq h

theorem run (test : Char → Bool) : Consumes (run test) := by
  intro s a rest h
  cases h
  exact List.dropWhile_suffix test

theorem exactly (text : String) : Consumes (exactly text) := by
  intro s a rest h
  rw [exactly_eq_some_iff.1 h]
  exact List.suffix_append _ _

theorem notAhead (test : Char → Bool) : Consumes (notAhead test) := by
  intro s a rest h
  cases s with
  | nil =>
      cases h
      exact List.suffix_rfl
  | cons c s =>
      rw [Parser.notAhead] at h
      split at h
      · cases h
      · cases h
        exact List.suffix_rfl

theorem ahead (c : Char) : Consumes (ahead c) := by
  intro s a rest h
  cases s with
  | nil => cases h
  | cons d s =>
      rw [Parser.ahead] at h
      split at h
      · cases h
        exact List.suffix_rfl
      · cases h

theorem maybe (hp : Consumes p) : Consumes (maybe p) := by
  intro s a rest h
  rcases maybe_eq_some_iff.1 h with ⟨b, h, -⟩ | ⟨-, -, rfl⟩
  · exact hp h
  · exact List.suffix_rfl

theorem matched (hp : Consumes p) : Consumes (matched p) := by
  intro s a rest h
  obtain ⟨found, hfound, he⟩ := Option.map_eq_some_iff.1 h
  cases he
  exact hp hfound

/-- By induction on the characters left, which become fewer with every repetition. -/
theorem many (hp : Consumes p) : Consumes (many p) := by
  intro s a rest h
  fun_induction Parser.many p s generalizing a with
  | case1 s hnone =>
      cases h
      exact List.suffix_rfl
  | case2 s first mid hfirst hshorter ih =>
      obtain ⟨found, hfound, he⟩ := Option.map_eq_some_iff.1 h
      cases he
      exact (ih hfound).trans (hp hfirst)
  | case3 s first mid hfirst hsame =>
      cases h
      exact List.suffix_rfl

end Consumes

namespace Advances

theorem bind {q : α → Parser β} (hp : Advances p) (hq : ∀ a, Consumes (q a)) :
    Advances (p >>= q) := by
  intro s b rest h
  obtain ⟨a, mid, hfirst, hnext⟩ := bind_eq_some_iff.1 h
  exact ⟨(hq a hnext).trans (hp hfirst).1,
    Nat.lt_of_le_of_lt (hq a hnext).length_le (hp hfirst).2⟩

theorem bind_right {q : α → Parser β} (hp : Consumes p) (hq : ∀ a, Advances (q a)) :
    Advances (p >>= q) := by
  intro s b rest h
  obtain ⟨a, mid, hfirst, hnext⟩ := bind_eq_some_iff.1 h
  exact ⟨(hq a hnext).1.trans (hp hfirst),
    Nat.lt_of_lt_of_le (hq a hnext).2 (hp hfirst).length_le⟩

theorem map {f : α → β} (hp : Advances p) : Advances (f <$> p) := by
  intro s b rest h
  obtain ⟨a, hfirst, -⟩ := map_eq_some_iff.1 h
  exact hp hfirst

theorem orElse (hp : Advances p) (hq : Advances q) : Advances (p <|> q) := by
  intro s a rest h
  rcases orElse_eq_some_iff.1 h with h | ⟨-, h⟩
  · exact hp h
  · exact hq h

theorem one (test : Char → Bool) : Advances (one test) := by
  intro s c rest h
  rw [(one_eq_some_iff.1 h).1]
  exact ⟨List.suffix_cons c rest, Nat.lt_succ_self _⟩

theorem exactly {text : String} (h : text.toList ≠ []) : Advances (exactly text) := by
  intro s a rest hread
  rw [exactly_eq_some_iff.1 hread, List.length_append]
  exact ⟨List.suffix_append _ _, Nat.lt_add_of_pos_left (List.length_pos_iff.2 h)⟩

end Advances

end Parser

end Source

end Interaction
