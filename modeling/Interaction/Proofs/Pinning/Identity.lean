import Interaction.Proofs.Address
import Interaction.Proofs.Source.Word
import Mathlib

/-!
# What an identity key tells apart

The key of a deployed contract joins its network, its address without the mark and its name. No
address literal holds a dot, so the key gives back the name and the address as it stands in the key.
But there the address has lost every `0x` at its front and not only the one that all addresses have.
So a key tells two literals apart that name different accounts, unless one of them repeats the mark
more often than the other: `0x1` and `0x0x0000000000000001` are different accounts with one key.
-/

namespace Interaction

namespace Text

/-- A fact about the ASCII letters and digits holds once it holds of the codes up to that of
`z`. -/
theorem forall_isAlphanum {P : Char → Prop}
    (h : ∀ n < 123, (Char.ofNat n).isAlphanum = true → P (Char.ofNat n)) (c : Char)
    (hc : c.isAlphanum = true) : P c := by
  have hcode : c.toNat < 123 := by
    simp only [Char.isAlphanum, Char.isAlpha, Char.isUpper, Char.isLower, Char.isDigit,
      Bool.or_eq_true, Bool.and_eq_true, decide_eq_true_eq, ge_iff_le,
      UInt32.le_iff_toNat_le] at hc
    change c.val.toNat < 123
    have h9 : '9'.val.toNat = 57 := rfl
    have hZ : 'Z'.val.toNat = 90 := rfl
    have hz : 'z'.val.toNat = 122 := rfl
    omega
  rw [← Char.ofNat_toNat c] at hc ⊢
  exact h c.toNat hcode hc

theorem isBlank_of_isAlphanum (c : Char) (h : c.isAlphanum = true) : isBlank c = false :=
  forall_isAlphanum (P := fun c => isBlank c = false) (by decide) c h

end Text

namespace Address

variable {address : String} {cs ds raw : List Char}

/-- How often the mark `0x` is repeated at the front. -/
def marks : List Char → Nat
  | '0' :: 'x' :: rest => marks rest + 1
  | _ => 0

/-- A text is its marks and what is left when they are dropped. -/
theorem eq_marks_append (cs : List Char) :
    cs = (List.replicate (marks cs) ['0', 'x']).flatten ++ dropMarks cs := by
  fun_induction marks cs with
  | case1 rest ih =>
      rw [List.replicate_succ, List.flatten_cons, List.append_assoc, dropMarks, ← ih]
      rfl
  | case2 cs hmark => rw [dropMarks.eq_2 cs hmark, List.replicate_zero, List.flatten_nil,
      List.nil_append]

/-- A numeral has no mark, and it is filled up without one. -/
theorem marks_settle (raw : List Char) : marks (settle raw) = marks raw := by
  have hdigits : ∀ cs : List Char, (∀ c ∈ cs, Text.isHexDigit c = true) → marks cs = 0 := by
    intro cs hcs
    unfold marks
    split
    next rest => exact absurd rfl (Text.ne_x_of_isHexDigit 'x' (hcs 'x' (by simp)))
    next => rfl
  rw [settle]
  split
  next h =>
    rw [hdigits _ (isNumeral_iff.1 h).2.2, hdigits _ fun c hc => (isHexDigit_of_mem_fill h c hc).1]
  next => rfl

theorem isAlphanum_of_mem_settle (h : ∀ c ∈ raw, c.isAlphanum = true) :
    ∀ c ∈ settle raw, c.isAlphanum = true := by
  rw [settle]
  split
  next hnumeral =>
    exact fun c hc => Text.forall_isHexDigit (P := fun c => c.isAlphanum = true) (by decide) c
      (isHexDigit_of_mem_fill hnumeral c hc).1
  next => exact h

/-- An address literal keeps its mark and has the rest settled. -/
theorem normalizeChars_of_isAddress (h : Source.IsAddress cs) :
    ∃ raw, cs = '0' :: 'x' :: raw ∧ (∀ c ∈ raw, c.isAlphanum = true) ∧
      normalizeChars cs = '0' :: 'x' :: settle raw := by
  obtain ⟨c, more, rfl, hc, hmore⟩ := h.exists_cons
  have hraw : ∀ d ∈ c :: more, d.isAlphanum = true := List.forall_mem_cons.2 ⟨hc, hmore⟩
  refine ⟨c :: more, rfl, hraw, ?_⟩
  have htrim : Text.trimChars ('0' :: 'x' :: c :: more) = '0' :: 'x' :: c :: more := by
    refine Text.trimChars_cons (by decide) fun d hd => Text.isBlank_of_isAlphanum d ?_
    rw [List.getLast?_cons_cons] at hd
    exact hraw d (List.mem_of_getLast? hd)
  rw [normalizeChars_eq, body, htrim, digits]

/-- Normalising a literal keeps the number of its marks. -/
theorem marks_normalizeChars (h : Source.IsAddress cs) : marks (normalizeChars cs) = marks cs := by
  obtain ⟨raw, rfl, -, hnormal⟩ := normalizeChars_of_isAddress h
  rw [hnormal, marks, marks, marks_settle]

/-- The text of a literal without its marks holds no dot. -/
theorem dot_not_mem_bare (h : Source.IsAddress address.toList) :
    '.' ∉ (bare address).toList := by
  obtain ⟨raw, -, hraw, hnormal⟩ := normalizeChars_of_isAddress h
  have hall : ∀ c ∈ normalizeChars address.toList, c.isAlphanum = true := by
    rw [hnormal]
    exact List.forall_mem_cons.2 ⟨by decide,
      List.forall_mem_cons.2 ⟨by decide, isAlphanum_of_mem_settle hraw⟩⟩
  rw [bare, String.toList_ofList]
  intro hdot
  have hmem : '.' ∈ normalizeChars address.toList := by
    rw [eq_marks_append (normalizeChars address.toList)]
    exact List.mem_append_right _ hdot
  exact absurd (hall '.' hmem) (by decide)

end Address

open Address

variable {network a b m n : String}

/-- Texts that are split at the first of some character agree on both sides of it. -/
theorem eq_and_eq_of_append_cons {α : Type} {x : α} {front back front' back' : List α}
    (hfront : x ∉ front) (hfront' : x ∉ front') (h : front ++ x :: back = front' ++ x :: back') :
    front = front' ∧ back = back' := by
  induction front generalizing front' with
  | nil =>
      cases front' with
      | nil => exact ⟨rfl, (List.cons.inj h).2⟩
      | cons y front' => exact absurd (List.cons.inj h).1 (List.ne_of_not_mem_cons hfront')
  | cons y front ih =>
      cases front' with
      | nil => exact absurd (List.cons.inj h).1.symm (List.ne_of_not_mem_cons hfront)
      | cons z front' =>
          obtain ⟨rfl, hrest⟩ := List.cons.inj h
          obtain ⟨rfl, rfl⟩ := ih (List.not_mem_of_not_mem_cons hfront)
            (List.not_mem_of_not_mem_cons hfront') hrest
          exact ⟨rfl, rfl⟩

/-- A key gives back the name and the address without its marks. -/
theorem identityKey_eq_identityKey_iff (ha : Source.IsAddress a.toList)
    (hb : Source.IsAddress b.toList) :
    identityKey network a m = identityKey network b n ↔ bare a = bare b ∧ m = n := by
  have hkey (address name : String) : (identityKey network address name).toList =
      (network ++ "/A.").toList ++ ((bare address).toList ++ '.' :: name.toList) := by
    simp [identityKey, qualify]
  constructor
  · intro h
    rw [← String.toList_inj, hkey, hkey, List.append_cancel_left_eq] at h
    obtain ⟨hbare, hname⟩ :=
      eq_and_eq_of_append_cons (dot_not_mem_bare ha) (dot_not_mem_bare hb) h
    exact ⟨String.toList_inj.1 hbare, String.toList_inj.1 hname⟩
  · rintro ⟨hbare, rfl⟩
    rw [identityKey, identityKey, qualify, qualify, hbare]

/-- Contracts at address literals have one name and one normalised address exactly if they have one
key and their literals repeat the mark equally often. -/
theorem identityKey_eq_and_marks_eq_iff (ha : Source.IsAddress a.toList)
    (hb : Source.IsAddress b.toList) :
    identityKey network a m = identityKey network b n ∧ marks a.toList = marks b.toList ↔
      m = n ∧ Address.normalize a = Address.normalize b := by
  rw [identityKey_eq_identityKey_iff ha hb, ← marks_normalizeChars ha, ← marks_normalizeChars hb,
    bare, bare, Address.normalize, Address.normalize, String.ofList_inj, String.ofList_inj]
  constructor
  · rintro ⟨⟨hbare, hname⟩, hmarks⟩
    refine ⟨hname, ?_⟩
    rw [eq_marks_append (normalizeChars a.toList), hmarks, hbare, ← eq_marks_append]
  · rintro ⟨hname, hnormal⟩
    rw [hnormal]
    exact ⟨⟨rfl, hname⟩, rfl⟩

/-- The placeholder of a contract that is named `Token` keeps its case, so another spelling of it
has another key. -/
theorem identityKey_placeholder_ne_of_case :
    identityKey "testnet" "0xTOKENADDRESS" "Token" ≠
      identityKey "testnet" "0xtokenaddress" "Token" := by
  intro hkey
  have hmarks : marks "0xTOKENADDRESS".toList = marks "0xtokenaddress".toList := by cbv
  obtain ⟨-, hnormal⟩ :=
    (identityKey_eq_and_marks_eq_iff (by decide) (by decide)).1 ⟨hkey, hmarks⟩
  exact absurd hnormal (by decide +kernel)

/-- Different accounts with one key: the mark is repeated, and the digits after it are the numeral
`1` as normalising fills it up. -/
theorem identityKey_eq_of_repeated_mark :
    Source.IsAddress "0x0x0000000000000001".toList ∧ Source.IsAddress "0x1".toList ∧
      identityKey "testnet" "0x0x0000000000000001" "A" = identityKey "testnet" "0x1" "A" ∧
      Address.normalize "0x0x0000000000000001" ≠ Address.normalize "0x1" := by
  refine ⟨by decide, by decide, ?_, ?_⟩
  · cbv
  · decide +kernel

end Interaction
