import Interaction.Digest
import Interaction.Proofs.Text.Utf8

/-!
# Digests as bytes

A digest is written in sixty-four bytes. Several digests that are written one after another can
therefore be told apart again, without anything between them.
-/

namespace Interaction

theorem Text.toNat_hexDigit_lt {n : Nat} (h : n < 16) : (hexDigit n).toNat < 0x80 :=
  (by decide : ∀ n < 16, (hexDigit n).toNat < 0x80) n h

namespace Digest

theorem toNat_lt_of_mem_hex {bytes : List UInt8} {c : Char} (h : c ∈ hex bytes) :
    c.toNat < 0x80 := by
  obtain ⟨b, -, hc⟩ := List.mem_flatMap.1 h
  have hb : b.toNat < 256 := b.toNat_lt
  simp only [hexByte, List.mem_cons, List.not_mem_nil, or_false] at hc
  rcases hc with rfl | rfl
  · exact Text.toNat_hexDigit_lt (by omega)
  · exact Text.toNat_hexDigit_lt (by omega)

/-- Whether a text is a digest of something. -/
def IsDigest (s : String) : Prop :=
  ∃ bytes, s = ofBytes bytes

theorem length_ofText {s : String} (h : IsDigest s) : (Utf8.ofText s).length = 64 := by
  obtain ⟨bytes, rfl⟩ := h
  rw [Utf8.ofText, ofBytes, String.toList_ofList,
    Utf8.length_encode_of_ascii fun c hc => toNat_lt_of_mem_hex hc, hex_length,
    Keccak.sha3_length]

/-- The bytes of several digests determine each of them and their number. -/
theorem flatMap_ofText_inj {ss ts : List String} (hss : ∀ s ∈ ss, IsDigest s)
    (hts : ∀ t ∈ ts, IsDigest t) (h : ss.flatMap Utf8.ofText = ts.flatMap Utf8.ofText) :
    ss = ts := by
  induction ss generalizing ts with
  | nil =>
      cases ts with
      | nil => rfl
      | cons t ts =>
          have hlength := congrArg List.length h
          rw [List.flatMap_nil, List.flatMap_cons, List.length_append,
            length_ofText (hts t (.head _)), List.length_nil] at hlength
          omega
  | cons s ss ih =>
      have hs := length_ofText (hss s (.head _))
      cases ts with
      | nil =>
          have hlength := congrArg List.length h
          rw [List.flatMap_nil, List.flatMap_cons, List.length_append, hs,
            List.length_nil] at hlength
          omega
      | cons t ts =>
          have ht := length_ofText (hts t (.head _))
          obtain ⟨hfirst, hmore⟩ := List.append_inj h (hs.trans ht.symm)
          have hsame : s = t := Utf8.ofText_injective hfirst
          have hrest : ss = ts :=
            ih (fun s hs => hss s (.tail _ hs)) (fun t ht => hts t (.tail _ ht)) hmore
          rw [hsame, hrest]

end Digest

end Interaction
