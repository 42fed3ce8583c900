import Interaction.Proofs.Address
import Interaction.Proofs.Traversal
import Mathlib.Data.Nat.Digits.Defs

/-!
# Spellings of one address

In an address the white space at its ends and one mark in front do not count. What is left is a
hexadecimal numeral of one to sixteen digits, which stands for its value, or it is another text,
which stands for itself. Normalising keeps this and nothing else: two addresses are brought to one
spelling exactly if they stand for the same.

Numerals are compared digit by digit. Filled up, a numeral has sixteen digits, and a number has
sixteen digits in one way only.
-/

namespace Interaction

namespace Text

/-! ### Values of hexadecimal digits -/

theorem isSome_hexValue? (c : Char) : (hexValue? c).isSome = isHexDigit c := by
  unfold hexValue? isHexDigit
  split_ifs <;> simp_all

/-- A digit of either case is, in lower case, the digit of its value. -/
theorem exists_hexValue? (c : Char) (h : isHexDigit c = true) :
    ∃ d < 16, hexValue? c = some d ∧ c.toLower = hexDigit d :=
  forall_isHexDigit (P := fun c => ∃ d < 16, hexValue? c = some d ∧ c.toLower = hexDigit d)
    (by decide) c h

/-- Digits of values below sixteen give the values back. -/
theorem eq_of_map_hexDigit {ds es : List Nat} (hds : ∀ d ∈ ds, d < 16) (hes : ∀ e ∈ es, e < 16)
    (h : ds.map hexDigit = es.map hexDigit) : ds = es := by
  have hvalues : ∀ ns : List Nat, (∀ n ∈ ns, n < 16) →
      (ns.map hexDigit).map hexValue? = ns.map some := by
    intro ns hns
    rw [List.map_map]
    exact List.map_congr_left fun n hn => hexValue?_hexDigit (hns n hn)
  have hsome : ds.map some = es.map some := by rw [← hvalues ds hds, ← hvalues es hes, h]
  exact List.map_injective_iff.2 (Option.some_injective Nat) hsome

end Text

namespace Address

variable {address : String} {core raw u v : List Char}

/-! ### What an address stands for -/

/-- What is left of a text without one mark, where it begins with one. -/
inductive Unmarks : List Char → List Char → Prop
  | lower (raw : List Char) : Unmarks ('0' :: 'x' :: raw) raw
  | upper (raw : List Char) : Unmarks ('0' :: 'X' :: raw) raw
  | bare (raw : List Char) (h : ∀ rest, raw ≠ '0' :: 'x' :: rest ∧ raw ≠ '0' :: 'X' :: rest) :
      Unmarks raw raw

/-- What an address says, apart from the white space at its ends and one mark. -/
def Spells (address : String) (raw : List Char) : Prop :=
  ∃ core, Text.Trims address.toList core ∧ Unmarks core raw

/-- The value of a hexadecimal numeral of one to sixteen digits. -/
def number? (raw : List Char) : Option Nat :=
  if 1 ≤ raw.length ∧ raw.length ≤ 16 then
    -- The last digit of the numeral counts ones.
    (raw.mapM Text.hexValue?).map fun ds => Nat.ofDigits 16 ds.reverse
  else none

theorem unmarks_iff : Unmarks core raw ↔ raw = digits core := by
  constructor
  · rintro (_ | _ | ⟨_, h⟩)
    · rfl
    · rfl
    · exact (digits.eq_3 core (fun rest => (h rest).1) fun rest => (h rest).2).symm
  · rintro rfl
    unfold digits
    split
    next rest => exact .lower rest
    next rest => exact .upper rest
    next hlower hupper => exact .bare core fun rest => ⟨hlower rest, hupper rest⟩

theorem spells_iff : Spells address raw ↔ raw = digits (Text.trimChars address.toList) := by
  simp only [Spells, Text.trims_iff, unmarks_iff, exists_eq_left]

/-! ### Sixteen digits -/

/-- A numeral is filled up to the sixteen digits of its value. -/
theorem exists_fill (h : isNumeral raw = true) : ∃ ds : List Nat, ds.length = 16 ∧
    (∀ d ∈ ds, d < 16) ∧ fill raw = ds.map Text.hexDigit ∧
      number? raw = some (Nat.ofDigits 16 ds.reverse) := by
  obtain ⟨hne, hlength, hhex⟩ := isNumeral_iff.1 h
  have hpos : 1 ≤ raw.length := List.length_pos_of_ne_nil hne
  obtain ⟨ds, hds⟩ := exists_forall₂ fun c hc => Text.exists_hexValue? c (hhex c hc)
  have hcount : raw.length = ds.length := hds.length_eq
  have hlower : raw.map Char.toLower = ds.map Text.hexDigit := by
    rw [← List.forall₂_eq_eq_eq, List.forall₂_map_left_iff, List.forall₂_map_right_iff]
    exact hds.imp fun _ _ hd => hd.2.2
  have hvalues : raw.mapM Text.hexValue? = some ds :=
    mapM_eq_some_iff.2 (hds.imp fun _ _ hd => hd.2.1)
  -- The zeros in front are the last digits of the reversed list, where they count nothing.
  refine ⟨List.replicate (16 - ds.length) 0 ++ ds, ?_, ?_, ?_, ?_⟩
  · rw [List.length_append, List.length_replicate]
    omega
  · intro d hd
    rcases List.mem_append.1 hd with hzero | hdigit
    · rw [List.eq_of_mem_replicate hzero]
      decide
    · obtain ⟨c, -, hc⟩ := exists_of_mem_right hds hdigit
      exact hc.1
  · rw [fill, hcount, hlower, List.map_append, List.map_replicate]
    rfl
  · rw [number?, if_pos ⟨hpos, hlength⟩, hvalues, List.reverse_append, List.reverse_replicate,
      Nat.ofDigits_append_replicate_zero]
    rfl

theorem isNumeral_of_number? {n : Nat} (h : number? raw = some n) : isNumeral raw = true := by
  rw [number?] at h
  split at h
  next hlength =>
    obtain ⟨ds, hds, -⟩ := Option.map_eq_some_iff.1 h
    refine isNumeral_iff.2 ⟨List.ne_nil_of_length_pos hlength.1, hlength.2, fun c hc => ?_⟩
    obtain ⟨d, -, hd⟩ := exists_of_mem_left (mapM_eq_some_iff.1 hds) hc
    rw [← Text.isSome_hexValue?, hd]
    rfl
  next => cases h

theorem number?_eq_none (h : isNumeral raw = false) : number? raw = none := by
  cases hnumber : number? raw with
  | none => rfl
  | some n =>
      rw [isNumeral_of_number? hnumber] at h
      cases h

/-- Filling up keeps apart what has different values, and nothing else. -/
theorem fill_eq_fill_iff (hu : isNumeral u = true) (hv : isNumeral v = true) :
    fill u = fill v ↔ number? u = number? v := by
  obtain ⟨ds, hds, hdigits, hfill, hnumber⟩ := exists_fill hu
  obtain ⟨es, hes, hdigits', hfill', hnumber'⟩ := exists_fill hv
  rw [hfill, hfill', hnumber, hnumber', Option.some_inj]
  constructor
  · intro h
    rw [Text.eq_of_map_hexDigit hdigits hdigits' h]
  · intro h
    have hreverse : ds.reverse = es.reverse := by
      refine Nat.ofDigits_inj_of_len_eq (by decide) ?_ ?_ ?_ h
      · rw [List.length_reverse, List.length_reverse, hds, hes]
      · exact fun d hd => hdigits d (List.mem_reverse.1 hd)
      · exact fun e he => hdigits' e (List.mem_reverse.1 he)
    rw [List.reverse_inj.1 hreverse]

/-! ### One spelling for all -/

theorem isNumeral_settle (raw : List Char) : isNumeral (settle raw) = isNumeral raw := by
  rw [settle]
  split
  next h => rw [isNumeral_fill h, h]
  next => rfl

/-- Numerals are settled alike if they have one value, other texts if they are the same. -/
theorem settle_eq_settle_iff : settle u = settle v ↔
    (∃ n, number? u = some n ∧ number? v = some n) ∨
      number? u = none ∧ number? v = none ∧ u = v := by
  constructor
  · intro h
    -- A filled numeral is a numeral, so it is no text that is kept as it is.
    have hkind : isNumeral v = isNumeral u := by rw [← isNumeral_settle, ← h, isNumeral_settle]
    cases hu : isNumeral u with
    | true =>
        have hv : isNumeral v = true := hkind.trans hu
        rw [settle, settle, if_pos hu, if_pos hv, fill_eq_fill_iff hu hv] at h
        obtain ⟨ds, -, -, -, hnumber⟩ := exists_fill hu
        exact .inl ⟨_, hnumber, h ▸ hnumber⟩
    | false =>
        have hv : isNumeral v = false := hkind.trans hu
        rw [settle, settle, hu, hv] at h
        exact .inr ⟨number?_eq_none hu, number?_eq_none hv, h⟩
  · rintro (⟨n, hu, hv⟩ | ⟨-, -, rfl⟩)
    · have hu' : isNumeral u = true := isNumeral_of_number? hu
      have hv' : isNumeral v = true := isNumeral_of_number? hv
      rw [settle, settle, if_pos hu', if_pos hv', fill_eq_fill_iff hu' hv', hu, hv]
    · rfl

/-- Normalising settles on one spelling: a second pass changes nothing, and two addresses are
normalised alike exactly if both spell a numeral of the same value or both spell the same text that
is no numeral. -/
theorem normalize_isCanonical (a b : String) :
    normalize (normalize a) = normalize a ∧
      (normalize a = normalize b ↔ ∃ u v, Spells a u ∧ Spells b v ∧
        ((∃ n, number? u = some n ∧ number? v = some n) ∨
          number? u = none ∧ number? v = none ∧ u = v)) := by
  refine ⟨normalize_normalize a, ?_⟩
  simp only [spells_iff, ← settle_eq_settle_iff, exists_and_left, exists_eq_left]
  exact normalize_eq_normalize_iff

/-- Only one mark is passed over, so this is no spelling of the account `0x1`. -/
example : normalize " 0X0x1\n" = "0x0x1" := by decide +kernel

end Address

end Interaction
