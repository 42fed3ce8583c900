import Interaction.Source.Block
import Interaction.Source.Entry
import Interaction.Source.Import
import Interaction.Source.Pragma
import Interaction.Text.Utf8

/-!
# Chunks of a source text

A source text is cut into chunks from left to right. A chunk is one of the declarations a template
is built from, or a comment, a word, a string literal or a single character. Every text can be cut,
and its chunks written one after another are the text again: `chunks_join`. What is read at a place
depends only on the text from there on, so a word inside a comment or a string is never taken for
a declaration.
-/

namespace Interaction

namespace Source

/-- What a chunk is. -/
inductive Item where
  | block (tags : List Tag)
  | pragma (fields : List Field)
  /-- The start of a pragma that cannot be read. -/
  | brokenPragma
  | imports (clause : Clause)
  | entry (entry : Entry)
  /-- Anything that is stepped over. -/
  | plain
  deriving Repr

/-- A piece of a source text. -/
structure Chunk where
  text : List Char
  item : Item
  deriving Repr

namespace Item

open Source.Parser Lexeme

def stepOver {α : Type} (p : Parser α) : Parser Item :=
  (fun _ => plain) <$> p

/-- A member access, whose name is never a declaration. -/
def member : Parser Unit := do
  exactly "."
  skip
  let _ ← word

/-- The item at the front of a text. Only the end of the text has none. -/
def parse : Parser Item :=
  stepOver blank <|> block <$> Tag.block <|> pragma <$> Source.pragma <|>
    (fun _ => brokenPragma) <$> exactly pragmaWord <|> imports <$> Clause.parse <|>
    stepOver member <|> entry <$> Entry.parse <|> stepOver stringLiteral <|> stepOver word <|>
    stepOver (one fun _ => true)

end Item

/-- How many characters after the first an item takes, and the item. -/
def itemAt (c : Char) (rest : List Char) : Nat × Item :=
  match Item.parse (c :: rest) with
  | none => (0, .plain)
  | some (item, after) => (rest.length - after.length, item)

/-- The chunks of a source text. -/
def chunks : List Char → List Chunk
  | [] => []
  | c :: rest =>
    let found := itemAt c rest
    { text := c :: rest.take found.1, item := found.2 } :: chunks (rest.drop found.1)
termination_by s => s.length
decreasing_by exact Nat.lt_succ_of_le (List.drop_sublist _ _).length_le

/-- The chunks of a text, written one after another, are the text. -/
theorem chunks_join (s : List Char) : (chunks s).flatMap Chunk.text = s := by
  fun_induction chunks s with
  | case1 => rfl
  | case2 c rest found ih => simp [ih]

/-- A value and where the text it was read from stands. -/
structure Located (α : Type) where
  line : Nat
  start : Nat
  /-- The byte after its last. -/
  stop : Nat
  value : α
  deriving DecidableEq, Repr

/-- Chunks with their places, from a given line and byte on. -/
def locateFrom (line start : Nat) : List Chunk → List (Located Item)
  | [] => []
  | chunk :: more =>
    let stop := start + Utf8.size chunk.text
    { line := line, start := start, stop := stop, value := chunk.item } ::
      locateFrom (line + chunk.text.count '\n') stop more

def items (source : String) : List (Located Item) :=
  locateFrom 1 0 (chunks source.toList)

/-- The import declarations of a source text with their places. -/
def declarations (source : String) : List (Located Clause) :=
  (items source).filterMap fun found =>
    match found.value with
    | .imports clause => some { found with value := clause }
    | _ => none

/-- The imports of a source text, declaration by declaration. -/
def importsOf (source : String) : List Import :=
  (declarations source).flatMap fun found => found.value.imports

end Source

end Interaction
