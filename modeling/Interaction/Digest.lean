import Interaction.Digest.Keccak
import Interaction.Text.Hex
import Interaction.Text.Utf8

/-!
# Digests

Contracts, templates and pins are identified by the SHA3-256 digest of some bytes, written as
sixty-four lowercase hexadecimal digits.
-/

namespace Interaction

namespace Digest

/-- The two hexadecimal digits of a byte, the higher first. -/
def hexByte (b : UInt8) : List Char :=
  [Text.hexDigit (b.toNat / 16), Text.hexDigit (b.toNat % 16)]

def hex (bytes : List UInt8) : List Char :=
  bytes.flatMap hexByte

theorem hex_length (bytes : List UInt8) : (hex bytes).length = 2 * bytes.length := by
  induction bytes with
  | nil => rfl
  | cons b bs ih =>
    simp only [hex, List.flatMap_cons, List.length_append, hexByte, List.length_cons,
      List.length_nil] at ih ⊢
    omega

def ofBytes (bytes : List UInt8) : String :=
  String.ofList (hex (Keccak.sha3 bytes))

def ofText (s : String) : String :=
  ofBytes (Utf8.ofText s)

def ofTexts (parts : List String) : String :=
  ofBytes (parts.flatMap Utf8.ofText)

theorem ofBytes_length (bytes : List UInt8) : (ofBytes bytes).length = 64 := by
  simp [ofBytes, hex_length, Keccak.sha3_length]

end Digest

end Interaction
