import Interaction.Source.Lexeme

/-!
# Type annotations

A type is kept as the text that spells it, so only its extent matters here. It is a nominal type
with or without arguments, an array, a dictionary or an intersection, perhaps behind a reference
with an entitlement, perhaps followed by question marks. Blanks may stand inside brackets and
before an argument list, comments may not. The recursion follows the nesting of the type; every
level reads a character, so the length of the text bounds it.
-/

namespace Interaction

namespace Source

namespace TypeText

open Source.Parser Lexeme

def space : Parser Unit := do
  let _ ← run isSpace

def spaced (text : String) : Parser Unit := do
  space
  exactly text

def qualified : Parser Unit := do
  let _ ← word
  let _ ← many do
    exactly "."
    word

/-- The entitlement of a reference: `auth` and anything in parentheses. -/
def authorization : Parser Unit := do
  exactly "auth"
  spaced "("
  let _ ← run (· != ')')
  exactly ")"
  space

def ampersand : Parser Unit := do
  exactly "&"
  space

/-- One or more items with commas between them, each perhaps among blank characters. -/
def commas (item : Parser Unit) : Parser Unit := do
  item
  let _ ← many do
    spaced ","
    space
    item

def array (inner : Parser Unit) : Parser Unit := do
  exactly "["
  space
  inner
  space
  let _ ← maybe do
    exactly ";"
    space
    let _ ← one Char.isDigit
    let _ ← run Char.isDigit
    space
  exactly "]"

def dictionary (inner : Parser Unit) : Parser Unit := do
  exactly "\x7b"
  space
  inner
  spaced ":"
  space
  inner
  spaced "\x7d"

def intersection : Parser Unit := do
  exactly "\x7b"
  space
  commas qualified
  spaced "\x7d"

/-- A nominal type with inner types as its arguments. -/
def nominal (inner : Parser Unit) : Parser Unit := do
  qualified
  let _ ← maybe do
    spaced "<"
    space
    commas inner
    spaced ">"

/-- A type that is nested at most `depth` levels deep. -/
def nested : (depth : Nat) → Parser Unit
  | 0 => failure
  | depth + 1 => do
    let inner := nested depth
    let _ ← maybe authorization
    let _ ← maybe ampersand
    array inner <|> dictionary inner <|> intersection <|> nominal inner
    let _ ← run (· == '?')

end TypeText

open Source.Parser in
def typeText : Parser String := fun s =>
  (matched (TypeText.nested (s.length + 1)) s).map fun found => (String.ofList found.1, found.2)

end Source

end Interaction
