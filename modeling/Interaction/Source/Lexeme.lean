import Interaction.Source.Parser

/-!
# Words, literals and comments

The smallest pieces of a source text. Blanks are the four ASCII characters space, tab, carriage
return and line feed, and comments count as blank too. A comment that opens with two stars and
names `@f_version` before it closes is no comment but a block of metadata, so it is not skipped;
`versionAhead` is the test for it.
-/

namespace Interaction

namespace Source

/-- The blanks between tokens. -/
def isSpace (c : Char) : Bool :=
  c == ' ' || c == '\t' || c == '\r' || c == '\n'

def isWordStart (c : Char) : Bool :=
  c.isAlpha || c == '_'

def isWordChar (c : Char) : Bool :=
  c.isAlphanum || c == '_'

namespace Lexeme

open Source.Parser

/-- A word: ASCII letters, digits and underscores that do not start with a digit. -/
def word : Parser String := do
  let first ← one isWordStart
  let more ← run isWordChar
  return String.ofList (first :: more)

/-- The given word, not followed by more of a word. -/
def keyword (text : String) : Parser Unit := do
  exactly text
  notAhead isWordChar

/-- An address literal: `0x` and at least one ASCII letter or digit. -/
def addressLiteral : Parser String := do
  exactly "0x"
  let first ← one Char.isAlphanum
  let more ← run Char.isAlphanum
  return String.ofList ('0' :: 'x' :: first :: more)

/-- What stands between the quotes of a string literal whose opening quote has been read. A
backslash keeps the character after it from ending the literal, and a line feed ends the attempt. -/
def quoted : Parser (List Char)
  | [] => none
  | '"' :: rest => some ([], rest)
  | '\n' :: _ => none
  | '\\' :: c :: rest => (quoted rest).map fun found => ('\\' :: c :: found.1, found.2)
  | c :: rest => (quoted rest).map fun found => (c :: found.1, found.2)

/-- The value of what stands between quotes: `\n` and `\t` are a line feed and a tab, and any other
character after a backslash is itself. -/
def unescape : List Char → List Char
  | [] => []
  | ['\\'] => []
  | '\\' :: 'n' :: rest => '\n' :: unescape rest
  | '\\' :: 't' :: rest => '\t' :: unescape rest
  | '\\' :: c :: rest => c :: unescape rest
  | c :: rest => c :: unescape rest

/-- A string literal, by its value. -/
def stringLiteral : Parser String := do
  exactly "\""
  let raw ← quoted
  return String.ofList (unescape raw)

/-- The text after the first `*/`. -/
def afterClose? : List Char → Option (List Char)
  | [] => none
  | '*' :: '/' :: rest => some rest
  | _ :: rest => afterClose? rest

/-- Whether `@f_version` comes before the first `*/`. -/
def namesVersion : List Char → Bool
  | [] => false
  | '*' :: '/' :: _ => false
  | c :: rest => "@f_version".toList.isPrefixOf (c :: rest) || namesVersion rest

/-- Whether a block of metadata starts here: it opens with `/**`, names `@f_version`, and is
closed. -/
def blockAhead (s : List Char) : Bool :=
  match s with
  | '/' :: '*' :: '*' :: rest => namesVersion rest && (afterClose? rest).isSome
  | _ => false

/-- A comment, to the end of its line or to the first `*/`. -/
def comment : Parser Unit := fun s =>
  match s with
  | '/' :: '/' :: rest => some ((), rest.dropWhile (· != '\n'))
  | '/' :: '*' :: rest =>
    if blockAhead s then none else (afterClose? rest).map fun after => ((), after)
  | _ => none

/-- One blank character or one comment. -/
def blank : Parser Unit :=
  (do let _ ← one isSpace) <|> comment

/-- Everything blank up to the next token. -/
def skip : Parser Unit := do
  let _ ← many blank

/-- The given text after anything blank. -/
def symbol (text : String) : Parser Unit := do
  skip
  exactly text

/-- One or more items with commas between them, blanks anywhere. -/
def separated {α : Type} (item : Parser α) : Parser (List α) := do
  let first ← item
  let more ← many do
    symbol ","
    skip
    item
  return first :: more

/-- One or more items with commas between them and perhaps one after the last. -/
def listed {α : Type} (item : Parser α) : Parser (List α) := do
  let items ← separated item
  let _ ← maybe (symbol ",")
  return items

/-- Any number of items between brackets, with commas between them and perhaps one after the
last. -/
def enclosed {α : Type} (opening : String) (item : Parser α) (closing : String) :
    Parser (List α) := do
  exactly opening
  let items ← maybe do
    skip
    listed item
  symbol closing
  return items.getD []

end Lexeme

end Source

end Interaction
