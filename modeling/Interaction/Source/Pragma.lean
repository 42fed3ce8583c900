import Interaction.Source.Lexeme

/-!
# Fields of an interaction pragma

The pragma `#interaction(...)` is a list of named fields. A field holds a text, or a list of
parameters that are lists of fields in turn.
-/

namespace Interaction

namespace Source

/-- A field of a pragma. `line` counts the lines from the start of the pragma. -/
inductive Field where
  | text (line : Nat) (name : String) (value : String)
  | parameters (line : Nat) (name : String) (values : List (List Field))
  deriving Repr

namespace Field

open Source.Parser Lexeme

def parseText (line : Nat) (name : String) : Parser Field :=
  text line name <$> stringLiteral

def parseParameter (inner : Parser Field) : Parser (List Field) := do
  exactly "Parameter"
  skip
  enclosed "(" inner ")"

/-- A field of the pragma that starts at `origin`, with at most `depth` levels of parameters. -/
def parse (origin : List Char) : (depth : Nat) → Parser Field
  | 0 => failure
  | depth + 1 => do
    let line := linesBetween origin (← get)
    let name ← word
    symbol ":"
    skip
    parseText line name <|>
      parameters line name <$> enclosed "[" (parseParameter (parse origin depth)) "]"

end Field

/-- The word that starts a pragma. -/
def pragmaWord : String := "#interaction"

open Source.Parser Lexeme in
/-- An interaction pragma, by its fields. Every level of parameters reads a character, so the
length of the text bounds their nesting. -/
def pragma : Parser (List Field) := do
  let origin ← get
  exactly pragmaWord
  skip
  enclosed "(" (Field.parse origin (origin.length + 1)) ")"

end Source

end Interaction
