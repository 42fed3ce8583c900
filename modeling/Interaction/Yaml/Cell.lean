/-!
# Characters with their places

YAML tells structure by columns and lines, so every character of a text is given its place first.
The line breaks of a text become line feeds, apart from the line and paragraph separators, which
end a line as well and are kept for what they are.
-/

namespace Interaction

namespace Yaml

/-- A character with its place. The offset counts the bytes before it. -/
structure Cell where
  char : Char
  line : Nat
  column : Nat
  offset : Nat
  deriving DecidableEq, Repr

/-- The characters that a text may hold: all but control characters and two that are no
characters. -/
def isAllowed (c : Char) : Bool :=
  c == '\t' || c == '\n' || c == '\r' || c == '\u0085' || (' ' ≤ c && c ≤ '~') ||
    ('\u00a0' ≤ c && c != '\ufffe' && c != '\uffff')

/-- Whether a line break is told apart from a line feed. -/
def isSeparator (c : Char) : Bool :=
  c == '\u2028' || c == '\u2029'

/-- The characters of a text from a place on. A carriage return and a line feed are one break. -/
def cellsFrom (line column offset : Nat) : List Char → List Cell
  | [] => []
  | '\r' :: '\n' :: more => ⟨'\n', line, column, offset⟩ :: cellsFrom (line + 1) 0 (offset + 2) more
  | c :: more =>
    let next := offset + c.utf8Size
    if c = '\n' ∨ c = '\r' ∨ c = '\u0085' then
      ⟨'\n', line, column, offset⟩ :: cellsFrom (line + 1) 0 next more
    else if isSeparator c then ⟨c, line, column, offset⟩ :: cellsFrom (line + 1) 0 next more
    else ⟨c, line, column, offset⟩ :: cellsFrom line (column + 1) next more

def cells (text : String) : List Cell :=
  cellsFrom 0 0 0 text.toList

namespace Cell

def isBlank (cell : Cell) : Bool :=
  cell.char == ' ' || cell.char == '\t'

def isBreak (cell : Cell) : Bool :=
  cell.char == '\n' || isSeparator cell.char

/-- Whether a cell is a byte order mark at the start of a line. -/
def isOrderMark (cell : Cell) : Bool :=
  cell.char == '\ufeff' && cell.column == 0

/-- Whether a cell is a blank or a line break. -/
def isGap (cell : Cell) : Bool :=
  cell.isBlank || cell.isBreak

end Cell

/-- Whether a text starts with a blank or a line break, or is at its end. -/
def startsBlank : List Cell → Bool
  | [] => true
  | cell :: _ => cell.isGap

/-- Whether a text starts with a mark between documents: three hyphens or three points alone at the
start of a line. -/
def startsDocumentMark : List Cell → Bool
  | a :: b :: c :: more =>
    a.column == 0 && (a.char == '-' || a.char == '.') && a.char == b.char && b.char == c.char &&
      startsBlank more
  | _ => false

end Yaml

end Interaction
