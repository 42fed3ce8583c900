import Interaction.Text.Blank
import Mathlib.Data.List.DropRight

/-!
# Splitting and trimming

A text is split at the first character of a kind and trimmed of the blanks at its ends. Around a
character that is not blank the two ends are trimmed apart from each other, so it makes no
difference whether a text is trimmed before it is split there. `Trims` says what is left of a text
without saying how it is found.
-/

namespace Interaction

namespace Text

variable {p : Char → Bool} {s core before after : List Char} {c : Char}

/-- A split is at the first character of its kind. -/
theorem splitAtFirst?_eq_some_iff : splitAtFirst? p s = some (before, after) ↔
    ∃ c, s = before ++ c :: after ∧ p c = true ∧ ∀ d ∈ before, p d = false := by
  induction s generalizing before with
  | nil => simp [splitAtFirst?]
  | cons c s ih =>
      rw [splitAtFirst?]
      split
      next hc =>
        constructor
        · rintro ⟨⟩
          exact ⟨c, rfl, hc, nofun⟩
        · rintro ⟨d, heq, hd, hbefore⟩
          cases before with
          | nil => rw [(List.cons.inj heq).2]
          | cons e before =>
              rw [← (List.cons.inj heq).1] at hbefore
              rw [hbefore c (.head _)] at hc
              cases hc
      next hc =>
        rw [Option.map_eq_some_iff]
        constructor
        · rintro ⟨⟨first, rest⟩, hsplit, heq⟩
          cases heq
          obtain ⟨d, rfl, hd, hbefore⟩ := ih.1 hsplit
          exact ⟨d, rfl, hd, List.forall_mem_cons.2 ⟨Bool.eq_false_iff.2 hc, hbefore⟩⟩
        · rintro ⟨d, heq, hd, hbefore⟩
          cases before with
          | nil =>
              rw [(List.cons.inj heq).1] at hc
              exact absurd hd hc
          | cons e before =>
              obtain ⟨rfl, rfl⟩ := List.cons.inj heq
              exact ⟨(before, after), ih.2 ⟨d, rfl, hd, fun f hf => hbefore f (.tail _ hf)⟩, rfl⟩

theorem splitAtFirst?_eq_none_iff : splitAtFirst? p s = none ↔ ∀ c ∈ s, p c = false := by
  induction s with
  | nil => exact ⟨fun _ => nofun, fun _ => rfl⟩
  | cons c s ih =>
      rw [splitAtFirst?, List.forall_mem_cons, ← ih]
      split
      next hc => simp [hc]
      next hc => simp [Bool.eq_false_iff.2 hc]

theorem dropWhile_append_cons (hc : p c = false) (before after : List Char) :
    (before ++ c :: after).dropWhile p = before.dropWhile p ++ c :: after := by
  rw [List.dropWhile_append, List.dropWhile_cons_of_neg (ne_true_of_eq_false hc)]
  split
  next hnil => rw [List.isEmpty_iff.1 hnil, List.nil_append]
  next => rfl

theorem rdropWhile_append_cons (hc : p c = false) (before after : List Char) :
    (before ++ c :: after).rdropWhile p = before ++ c :: after.rdropWhile p := by
  have hreverse : (before ++ c :: after).reverse = after.reverse ++ c :: before.reverse := by simp
  rw [List.rdropWhile, hreverse, dropWhile_append_cons hc, List.rdropWhile]
  simp

theorem trimChars_append_cons (hc : isBlank c = false) (before after : List Char) :
    trimChars (before ++ c :: after) =
      before.dropWhile isBlank ++ c :: after.rdropWhile isBlank := by
  change ((before ++ c :: after).dropWhile isBlank).rdropWhile isBlank = _
  rw [dropWhile_append_cons hc, rdropWhile_append_cons hc]

theorem trimChars_dropWhile (s : List Char) : trimChars (s.dropWhile isBlank) = trimChars s := by
  rw [trimChars, List.dropWhile_idempotent, trimChars]

theorem trimChars_rdropWhile (s : List Char) :
    trimChars (s.rdropWhile isBlank) = trimChars s := by
  by_cases hblank : ∀ c ∈ s, isBlank c = true
  · rw [List.rdropWhile_eq_nil_iff.2 hblank, trimChars, trimChars,
      List.dropWhile_eq_nil_iff.2 hblank]
    rfl
  · obtain ⟨c, hmem, hc⟩ : ∃ c ∈ s, isBlank c = false := by
      by_contra hno
      exact hblank fun c hc => eq_true_of_ne_false fun heq => hno ⟨c, hc, heq⟩
    obtain ⟨before, after, rfl⟩ := List.append_of_mem hmem
    rw [rdropWhile_append_cons hc, trimChars_append_cons hc, trimChars_append_cons hc,
      List.rdropWhile_idempotent]

/-- Some blanks at the front of a text make no difference to it once it is trimmed. -/
theorem trimChars_dropWhile_of_imp (h : ∀ c, p c = true → isBlank c = true) (s : List Char) :
    trimChars (s.dropWhile p) = trimChars s := by
  have hdrop : (s.dropWhile p).dropWhile isBlank = s.dropWhile isBlank := by
    conv_rhs => rw [← List.takeWhile_append_dropWhile (p := p) (l := s)]
    rw [List.dropWhile_append_of_pos fun c hc => h c (List.mem_takeWhile_imp hc)]
  rw [trimChars, hdrop, trimChars]

theorem mem_trimChars (h : c ∈ s) (hc : isBlank c = false) : c ∈ trimChars s := by
  obtain ⟨before, after, rfl⟩ := List.append_of_mem h
  rw [trimChars_append_cons hc]
  exact List.mem_append_right _ (.head _)

theorem mem_of_mem_trimChars (h : c ∈ trimChars s) : c ∈ s :=
  (List.dropWhile_suffix isBlank).subset
    ((List.rdropWhile_prefix isBlank _).subset h)

/-! ### White space at the ends -/

/-- A text without blanks at its ends is not trimmed. -/
theorem trimChars_cons {first : Char} {cs : List Char} (hfirst : isBlank first = false)
    (hlast : ∀ c ∈ cs.getLast?, isBlank c = false) : trimChars (first :: cs) = first :: cs := by
  have hstart : (first :: cs).dropWhile isBlank = first :: cs :=
    List.dropWhile_cons_of_neg (by simp [hfirst])
  have hend : (first :: cs).reverse.dropWhile isBlank = (first :: cs).reverse := by
    cases h : cs.reverse with
    | nil => simp_all
    | cons last more =>
        have hmem : last ∈ cs.getLast? := by simp [← List.head?_reverse, h]
        simp [h, hlast last hmem]
  rw [trimChars, hstart, hend, List.reverse_reverse]

/-- The last character of a trimmed text is not blank. -/
theorem isBlank_getLast?_trimChars (cs : List Char) :
    ∀ c ∈ (trimChars cs).getLast?, isBlank c = false := by
  intro c hc
  rw [trimChars, List.getLast?_reverse] at hc
  have hhead := List.head?_dropWhile_not isBlank (cs.dropWhile isBlank).reverse
  rw [Option.mem_def.1 hc] at hhead
  simpa using hhead

/-- The first character of a trimmed text is not blank. -/
theorem isBlank_head?_trimChars (s : List Char) :
    ∀ c ∈ (trimChars s).head?, isBlank c = false := by
  intro c hc
  obtain ⟨back, hback⟩ : trimChars s <+: s.dropWhile isBlank := List.rdropWhile_prefix isBlank _
  have hhead := List.head?_dropWhile_not isBlank s
  rw [← hback, List.head?_append, Option.mem_def.1 hc] at hhead
  simpa using hhead

theorem trimChars_append_of_blank {front back : List Char}
    (hfront : ∀ c ∈ front, isBlank c = true) (hback : ∀ c ∈ back, isBlank c = true) :
    trimChars (front ++ core ++ back) = trimChars core := by
  have hreverse : (core ++ back).rdropWhile isBlank = core.rdropWhile isBlank := by
    rw [List.rdropWhile, List.reverse_append,
      List.dropWhile_append_of_pos fun c hc => hback c (List.mem_reverse.1 hc), List.rdropWhile]
  calc trimChars (front ++ core ++ back)
      = trimChars (core ++ back) := by
        rw [← trimChars_dropWhile, List.append_assoc, List.dropWhile_append_of_pos hfront,
          trimChars_dropWhile]
    _ = trimChars core := by
        rw [← trimChars_rdropWhile, hreverse, trimChars_rdropWhile]

/-- A text is what trimming leaves of it with blanks around. -/
theorem exists_eq_append_trimChars (s : List Char) :
    ∃ front back, s = front ++ trimChars s ++ back ∧ ∀ c ∈ front ++ back, isBlank c = true := by
  refine ⟨s.takeWhile isBlank, (s.dropWhile isBlank).rtakeWhile isBlank, ?_, ?_⟩
  · change s = s.takeWhile isBlank ++ (s.dropWhile isBlank).rdropWhile isBlank ++ _
    rw [List.append_assoc, List.rdropWhile_append_rtakeWhile, List.takeWhile_append_dropWhile]
  · intro c hc
    rcases List.mem_append.1 hc with hfront | hback
    · exact List.mem_takeWhile_imp hfront
    · exact List.mem_rtakeWhile_imp hback

/-- The codes of the twenty-five characters with the Unicode `White_Space` property. -/
def whiteSpace : List Nat :=
  [0x9, 0xA, 0xB, 0xC, 0xD, 0x20, 0x85, 0xA0, 0x1680, 0x2000, 0x2001, 0x2002, 0x2003, 0x2004,
    0x2005, 0x2006, 0x2007, 0x2008, 0x2009, 0x200A, 0x2028, 0x2029, 0x202F, 0x205F, 0x3000]

theorem isBlank_iff_mem_whiteSpace {c : Char} : isBlank c = true ↔ c.toNat ∈ whiteSpace := by
  simp only [isBlank, whiteSpace, List.mem_cons, List.not_mem_nil, or_false, Bool.or_eq_true,
    Bool.and_eq_true, decide_eq_true_eq, beq_iff_eq]
  constructor <;> intro h <;> omega

theorem isBlank_eq_false_iff {c : Char} : isBlank c = false ↔ c.toNat ∉ whiteSpace := by
  rw [← isBlank_iff_mem_whiteSpace, Bool.not_eq_true]

/-- What a text holds between the white space at its ends. -/
structure Trims (s core : List Char) : Prop where
  around : ∃ front back, s = front ++ core ++ back ∧ ∀ c ∈ front ++ back, c.toNat ∈ whiteSpace
  head : ∀ c ∈ core.head?, c.toNat ∉ whiteSpace
  last : ∀ c ∈ core.getLast?, c.toNat ∉ whiteSpace

theorem trims_iff : Trims s core ↔ core = trimChars s := by
  constructor
  · rintro ⟨⟨front, back, rfl, haround⟩, hhead, hlast⟩
    have hblank : ∀ c ∈ front ++ back, isBlank c = true :=
      fun c hc => isBlank_iff_mem_whiteSpace.2 (haround c hc)
    rw [trimChars_append_of_blank (fun c hc => hblank c (List.mem_append_left _ hc))
      fun c hc => hblank c (List.mem_append_right _ hc)]
    cases core with
    | nil => rfl
    | cons first more =>
        refine (trimChars_cons (isBlank_eq_false_iff.2 (hhead first rfl)) fun c hc => ?_).symm
        refine isBlank_eq_false_iff.2 (hlast c ?_)
        rw [List.getLast?_cons, Option.mem_def.1 hc]
        rfl
  · rintro rfl
    obtain ⟨front, back, heq, hblank⟩ := exists_eq_append_trimChars s
    refine ⟨⟨front, back, heq, ?_⟩, ?_, ?_⟩
    · exact fun c hc => isBlank_iff_mem_whiteSpace.1 (hblank c hc)
    · exact fun c hc => isBlank_eq_false_iff.1 (isBlank_head?_trimChars s c hc)
    · exact fun c hc => isBlank_eq_false_iff.1 (isBlank_getLast?_trimChars s c hc)

end Text

end Interaction
