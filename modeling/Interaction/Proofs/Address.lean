import Interaction.Address
import Interaction.Proofs.Text.Trim

/-!
# Normalised addresses

`isHex` singles out the addresses of one to sixteen hexadecimal digits. Normalising is idempotent
for every text: what stands after the `0x` of a normalised address is either a filled numeral or
the text that is no numeral, and both are kept by a second pass. For hexadecimal addresses the
identity key of a contract gives back its name and its normalised address.
-/

namespace Interaction

namespace Text

/-- A fact about the hexadecimal digits holds once it holds of the codes up to that of `f`. -/
theorem forall_isHexDigit {P : Char → Prop}
    (h : ∀ n < 103, isHexDigit (Char.ofNat n) = true → P (Char.ofNat n)) (c : Char)
    (hc : isHexDigit c = true) : P c := by
  have hcode : c.toNat < 103 := by
    simp only [isHexDigit, Char.isDigit, Bool.or_eq_true, Bool.and_eq_true, decide_eq_true_eq,
      Char.le_def, UInt32.le_iff_toNat_le] at hc
    change c.val.toNat < 103
    have h9 : '9'.val.toNat = 57 := rfl
    have hf : 'f'.val.toNat = 102 := rfl
    have hF : 'F'.val.toNat = 70 := rfl
    omega
  rw [← Char.ofNat_toNat c] at hc ⊢
  exact h c.toNat hcode hc

theorem isHexDigit_toLower (c : Char) (h : isHexDigit c = true) : isHexDigit c.toLower = true :=
  forall_isHexDigit (P := fun c => isHexDigit c.toLower = true) (by decide) c h

theorem toLower_toLower_of_isHexDigit (c : Char) (h : isHexDigit c = true) :
    c.toLower.toLower = c.toLower :=
  forall_isHexDigit (P := fun c => c.toLower.toLower = c.toLower) (by decide) c h

theorem isBlank_of_isHexDigit (c : Char) (h : isHexDigit c = true) : isBlank c = false :=
  forall_isHexDigit (P := fun c => isBlank c = false) (by decide) c h

theorem ne_x_of_isHexDigit (c : Char) (h : isHexDigit c = true) : c ≠ 'x' :=
  forall_isHexDigit (P := fun c => c ≠ 'x') (by decide) c h

end Text

namespace Address

/-- Whether a text is an address of one to sixteen hexadecimal digits, however it is spelled. -/
def isHex (address : String) : Bool :=
  isNumeral (digits (Text.trimChars address.toList))

/-- A numeral filled up, and any other text as it is. -/
def settle (raw : List Char) : List Char :=
  if isNumeral raw then fill raw else raw

/-- What stands after the `0x` of the normalised address. -/
def body (cs : List Char) : List Char :=
  settle (digits (Text.trimChars cs))

theorem normalizeChars_eq (cs : List Char) : normalizeChars cs = '0' :: 'x' :: body cs :=
  rfl

theorem isNumeral_iff {cs : List Char} :
    isNumeral cs = true ↔ cs ≠ [] ∧ cs.length ≤ 16 ∧ ∀ c ∈ cs, Text.isHexDigit c = true := by
  simp [isNumeral, and_assoc]

theorem length_fill {cs : List Char} (h : isNumeral cs = true) : (fill cs).length = 16 := by
  have hlength := (isNumeral_iff.1 h).2.1
  simp [fill]
  omega

theorem isHexDigit_of_mem_fill {cs : List Char} (h : isNumeral cs = true) :
    ∀ c ∈ fill cs, Text.isHexDigit c = true ∧ c.toLower = c := by
  intro c hc
  rcases List.mem_append.1 hc with hzero | hdigit
  · rw [List.eq_of_mem_replicate hzero]
    decide
  · obtain ⟨d, hd, rfl⟩ := List.mem_map.1 hdigit
    have hhex : Text.isHexDigit d = true := (isNumeral_iff.1 h).2.2 d hd
    exact ⟨Text.isHexDigit_toLower d hhex, Text.toLower_toLower_of_isHexDigit d hhex⟩

theorem isNumeral_fill {cs : List Char} (h : isNumeral cs = true) :
    isNumeral (fill cs) = true := by
  have hlength := length_fill h
  refine isNumeral_iff.2 ⟨?_, by omega, fun c hc => (isHexDigit_of_mem_fill h c hc).1⟩
  exact List.ne_nil_of_length_pos (by omega)

theorem fill_fill {cs : List Char} (h : isNumeral cs = true) : fill (fill cs) = fill cs := by
  have hlower : (fill cs).map Char.toLower = (fill cs).map id :=
    List.map_congr_left fun c hc => (isHexDigit_of_mem_fill h c hc).2
  rw [fill, length_fill h, hlower, List.map_id]
  rfl

theorem settle_settle (raw : List Char) : settle (settle raw) = settle raw := by
  by_cases h : isNumeral raw = true
  · have hsettle : settle raw = fill raw := if_pos h
    rw [hsettle, settle, if_pos (isNumeral_fill h), fill_fill h]
  · have hsettle : settle raw = raw := if_neg h
    rw [hsettle, hsettle]

/-- Taking away the mark does not change how a text ends. -/
theorem getLast?_digits {cs : List Char} {c : Char} (h : c ∈ (digits cs).getLast?) :
    c ∈ cs.getLast? := by
  unfold digits at h
  split at h
  · rw [List.getLast?_cons_cons, List.getLast?_cons]
    simp_all
  · rw [List.getLast?_cons_cons, List.getLast?_cons]
    simp_all
  · exact h

theorem isBlank_getLast?_body (cs : List Char) :
    ∀ c ∈ (body cs).getLast?, Text.isBlank c = false := by
  intro c hc
  rw [body, settle] at hc
  split at hc
  next hnumeral =>
    have hmem : c ∈ fill (digits (Text.trimChars cs)) := List.mem_of_getLast? hc
    exact Text.isBlank_of_isHexDigit c (isHexDigit_of_mem_fill hnumeral c hmem).1
  next => exact Text.isBlank_getLast?_trimChars cs c (getLast?_digits hc)

theorem trimChars_normalizeChars (cs : List Char) :
    Text.trimChars (normalizeChars cs) = normalizeChars cs := by
  rw [normalizeChars_eq]
  refine Text.trimChars_cons (by decide) fun c hc => ?_
  rw [List.getLast?_cons] at hc
  cases h : (body cs).getLast? with
  | none =>
      rw [h] at hc
      cases hc
      decide
  | some last =>
      rw [h] at hc
      cases hc
      exact isBlank_getLast?_body cs last h

theorem body_normalizeChars (cs : List Char) : body (normalizeChars cs) = body cs := by
  rw [body, trimChars_normalizeChars, normalizeChars_eq]
  exact settle_settle _

/-- Normalising a second time changes nothing. -/
theorem normalize_normalize (address : String) :
    normalize (normalize address) = normalize address := by
  rw [normalize, normalize, String.toList_ofList, normalizeChars_eq, body_normalizeChars,
    ← normalizeChars_eq]

theorem normalize_eq_normalize_iff {a b : String} :
    normalize a = normalize b ↔ body a.toList = body b.toList := by
  rw [normalize, normalize, String.ofList_inj, normalizeChars_eq, normalizeChars_eq,
    List.cons_inj_right, List.cons_inj_right]

theorem body_of_isHex {address : String} (h : isHex address = true) :
    body address.toList = fill (digits (Text.trimChars address.toList)) :=
  if_pos h

theorem isHexDigit_of_mem_body {address : String} (h : isHex address = true) :
    ∀ c ∈ body address.toList, Text.isHexDigit c = true := by
  rw [body_of_isHex h]
  exact fun c hc => (isHexDigit_of_mem_fill h c hc).1

theorem length_body {address : String} (h : isHex address = true) :
    (body address.toList).length = 16 := by
  rw [body_of_isHex h]
  exact length_fill h

theorem isHex_normalize {address : String} (h : isHex address = true) :
    isHex (normalize address) = true := by
  rw [isHex, normalize, String.toList_ofList, trimChars_normalizeChars, normalizeChars_eq,
    body_of_isHex h]
  exact isNumeral_fill h

/-- A run of digits holds no mark that could be dropped. -/
theorem dropMarks_of_isHexDigit {cs : List Char} (h : ∀ c ∈ cs, Text.isHexDigit c = true) :
    dropMarks cs = cs := by
  unfold dropMarks
  split
  next rest => exact absurd rfl (Text.ne_x_of_isHexDigit 'x' (h 'x' (by simp)))
  next => rfl

theorem bare_of_isHex {address : String} (h : isHex address = true) :
    bare address = String.ofList (body address.toList) := by
  rw [bare, normalizeChars_eq, dropMarks, dropMarks_of_isHexDigit (isHexDigit_of_mem_body h)]

theorem bare_normalize (address : String) : bare (normalize address) = bare address := by
  rw [bare, bare, normalize, String.toList_ofList, normalizeChars_eq, body_normalizeChars,
    ← normalizeChars_eq]

end Address

theorem identityKey_normalize (network address name : String) :
    identityKey network (Address.normalize address) name = identityKey network address name := by
  rw [identityKey, identityKey, Address.qualify, Address.qualify, Address.bare_normalize]

/-- The keys of contracts at hexadecimal addresses tell them apart: sixteen digits stand between
the network and the name. -/
theorem identityKey_inj {network a b m n : String} (ha : Address.isHex a = true)
    (hb : Address.isHex b = true) (h : identityKey network a m = identityKey network b n) :
    Address.normalize a = Address.normalize b ∧ m = n := by
  simp only [identityKey, Address.qualify, Address.bare_of_isHex ha, Address.bare_of_isHex hb,
    ← String.toList_inj, String.toList_append, String.toList_ofList, List.append_assoc,
    List.append_cancel_left_eq] at h
  have hlength : (Address.body a.toList).length = (Address.body b.toList).length := by
    rw [Address.length_body ha, Address.length_body hb]
  obtain ⟨hbody, hname⟩ := List.append_inj h hlength
  exact ⟨Address.normalize_eq_normalize_iff.2 hbody,
    String.toList_inj.1 (List.append_cancel_left hname)⟩

end Interaction
