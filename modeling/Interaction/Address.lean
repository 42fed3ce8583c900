import Interaction.Text.Blank
import Interaction.Text.Hex

/-!
# Account addresses

An address is written as hexadecimal digits with or without a leading `0x`. `normalize` brings the
spellings of one address together: sixteen lowercase digits after `0x`. A text that is no address
of at most sixteen digits, such as the placeholder `0xFLOWTOKENADDRESS`, is kept and only given
the `0x`.
-/

namespace Interaction

namespace Address

/-- The text after one leading `0x` or `0X`. -/
def digits : List Char → List Char
  | '0' :: 'x' :: rest => rest
  | '0' :: 'X' :: rest => rest
  | cs => cs

/-- Whether these characters are a hexadecimal numeral of one to sixteen digits. -/
def isNumeral (cs : List Char) : Bool :=
  cs ≠ [] && cs.length ≤ 16 && cs.all Text.isHexDigit

/-- The numeral in lower case, filled up with zeros to sixteen digits. -/
def fill (cs : List Char) : List Char :=
  List.replicate (16 - cs.length) '0' ++ cs.map Char.toLower

def normalizeChars (cs : List Char) : List Char :=
  let raw := digits (Text.trimChars cs)
  '0' :: 'x' :: if isNumeral raw then fill raw else raw

/-- The one spelling that all spellings of an address share. -/
def normalize (address : String) : String :=
  String.ofList (normalizeChars address.toList)

/-- Drops every leading `0x`, however often it is repeated. -/
def dropMarks : List Char → List Char
  | '0' :: 'x' :: rest => dropMarks rest
  | cs => cs

/-- The normalised address without its `0x`, as qualified names use it. -/
def bare (address : String) : String :=
  String.ofList (dropMarks (normalizeChars address.toList))

/-- The qualified name of a contract, such as `A.e15193734357cf5c.HelloWorld`. -/
def qualify (address name : String) : String :=
  "A." ++ bare address ++ "." ++ name

end Address

/-- The identity of a deployed contract across networks, such as
`testnet/A.e15193734357cf5c.HelloWorld`. -/
def identityKey (network address name : String) : String :=
  network ++ "/" ++ Address.qualify address name

end Interaction
