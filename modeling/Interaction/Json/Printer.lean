import Interaction.Json.Value
import Interaction.Text.Hex

/-!
# Writing JSON

A value is written either compactly, without any blanks, or indented, with one item or member to a
line. Inside a string only the quote, the backslash and the control characters are escaped. A value
is written in front of the text that follows it, so what is written does not depend on that text.
-/

namespace Interaction

namespace Json

/-- How a value is laid out. -/
inductive Layout where
  | compact
  /-- One item to a line, indented by so many spaces per level. -/
  | indented (width : Nat)
  deriving DecidableEq, Repr

def escapeChar (c : Char) : List Char :=
  if c = '"' then ['\\', '"']
  else if c = '\\' then ['\\', '\\']
  else if c = '\n' then ['\\', 'n']
  else if c = '\r' then ['\\', 'r']
  else if c = '\t' then ['\\', 't']
  else if c = '\x08' then ['\\', 'b']
  else if c = '\x0c' then ['\\', 'f']
  else if c.toNat < 0x20 then
    ['\\', 'u', '0', '0', Text.hexDigit (c.toNat / 16), Text.hexDigit (c.toNat % 16)]
  else [c]

/-- Writes a string with its quotes in front of a text. -/
def writeString (s : String) (rest : List Char) : List Char :=
  '"' :: (s.toList.flatMap escapeChar ++ '"' :: rest)

/-- The start of a new line at some depth. -/
def Layout.lineBreak (layout : Layout) (depth : Nat) : List Char :=
  match layout with
  | compact => []
  | indented width => '\n' :: List.replicate (width * depth) ' '

def Layout.colon : Layout → List Char
  | compact => [':']
  | indented _ => [':', ' ']

mutual

/-- Writes a value at some depth in front of a text. -/
def write (layout : Layout) (depth : Nat) : Json → List Char → List Char
  | .null, rest => 'n' :: 'u' :: 'l' :: 'l' :: rest
  | .bool true, rest => 't' :: 'r' :: 'u' :: 'e' :: rest
  | .bool false, rest => 'f' :: 'a' :: 'l' :: 's' :: 'e' :: rest
  | .number n, rest => n.text ++ rest
  | .string s, rest => writeString s rest
  | .array [], rest => '[' :: ']' :: rest
  | .array (item :: more), rest =>
    '[' :: (layout.lineBreak (depth + 1) ++
      write layout (depth + 1) item
        (writeItems layout (depth + 1) more (layout.lineBreak depth ++ ']' :: rest)))
  | .object [], rest => '{' :: '}' :: rest
  | .object (member :: more), rest =>
    '{' :: (layout.lineBreak (depth + 1) ++
      writeMember layout (depth + 1) member
        (writeMembers layout (depth + 1) more (layout.lineBreak depth ++ '}' :: rest)))

def writeItems (layout : Layout) (depth : Nat) : List Json → List Char → List Char
  | [], rest => rest
  | item :: more, rest =>
    ',' :: (layout.lineBreak depth ++
      write layout depth item (writeItems layout depth more rest))

def writeMember (layout : Layout) (depth : Nat) : String × Json → List Char → List Char
  | (key, value), rest => writeString key (layout.colon ++ write layout depth value rest)

def writeMembers (layout : Layout) (depth : Nat) : List (String × Json) → List Char → List Char
  | [], rest => rest
  | member :: more, rest =>
    ',' :: (layout.lineBreak depth ++
      writeMember layout depth member (writeMembers layout depth more rest))

end

def render (layout : Layout) (value : Json) : String :=
  String.ofList (write layout 0 value [])

/-- The text of a value without blanks. -/
def compress (value : Json) : String :=
  value.render .compact

end Json

end Interaction
