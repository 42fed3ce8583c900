import Interaction.Text.Hex
import Interaction.Yaml.Cell

/-!
# Scalars of YAML

The texts that stand between quotes or plainly in a document. A scalar may go over several lines;
what stands between two of its words is folded.
-/

namespace Interaction

namespace Yaml

/-! ### Folding -/

/-- What has been read since the last character of a scalar that is no blank and no line break. -/
inductive Gap where
  /-- Blanks on the line of the character. -/
  | blanks (text : List Char)
  /-- Line breaks, the first of them apart; it may have been escaped away. -/
  | breaks (first : Option Char) (others : List Char)
  deriving DecidableEq, Repr

namespace Gap

def nothing : Gap :=
  blanks []

/-- A gap with one cell more. Blanks beside line breaks do not count. -/
def add (gap : Gap) (cell : Cell) : Gap :=
  match gap with
  | blanks text => if cell.isBreak then breaks (some cell.char) [] else blanks (text ++ [cell.char])
  | breaks first others =>
    if cell.isBreak then breaks first (others ++ [cell.char]) else breaks first others

/-- Whether a gap goes over the end of a line. -/
def hasBreak : Gap → Bool
  | blanks _ => false
  | breaks _ _ => true

/-- What a scalar holds for a gap. A single line feed is a space, and the first of several is left
out. -/
def text : Gap → List Char
  | blanks text => text
  | breaks (some '\n') [] => [' ']
  | breaks (some '\n') others => others
  | breaks first others => first.toList ++ others

end Gap

/-! ### Quoted scalars -/

/-- What stands between single quotes, after the opening one and a gap; a quote is written
twice. -/
def singleQuoted? (gap : Gap) : List Cell → Option (List Char × List Cell)
  | [] => none
  | cell :: more =>
    if cell.isGap then singleQuoted? (gap.add cell) more
    else if startsDocumentMark (cell :: more) then none
    else if cell.char = '\'' then
      match more with
      | [] => some (gap.text, [])
      | next :: rest =>
        if next.char = '\'' then
          (singleQuoted? .nothing rest).map fun found => (gap.text ++ '\'' :: found.1, found.2)
        else some (gap.text, next :: rest)
    else (singleQuoted? .nothing more).map fun found => (gap.text ++ cell.char :: found.1, found.2)

/-- The character of a number, unless it is a surrogate or too large. -/
def charOf? (n : Nat) : Option Char :=
  if (Char.ofNat n).toNat = n then some (Char.ofNat n) else none

/-- How many hexadecimal digits follow an escape letter. -/
def escapeWidth : Char → Nat
  | 'x' => 2
  | 'u' => 4
  | 'U' => 8
  | _ => 0

/-- The character an escape letter stands for. -/
def escapeLetter? : Char → Option Char
  | '0' => some '\x00'
  | 'a' => some '\x07'
  | 'b' => some '\x08'
  | 't' => some '\t'
  | '\t' => some '\t'
  | 'n' => some '\n'
  | 'v' => some '\x0b'
  | 'f' => some '\x0c'
  | 'r' => some '\r'
  | 'e' => some '\x1b'
  | ' ' => some ' '
  | '"' => some '"'
  | '/' => some '/'
  | '\\' => some '\\'
  | 'N' => some '\u0085'
  | '_' => some '\u00a0'
  | 'L' => some '\u2028'
  | 'P' => some '\u2029'
  | _ => none

/-- Where the reading of a double-quoted scalar stands. -/
inductive Progress where
  | atGap (gap : Gap)
  | atEscape
  /-- In the digits of a number, of which `left` are to come. -/
  | atDigit (left : Nat) (value : Nat)
  deriving DecidableEq, Repr

/-- What stands between double quotes, after the opening one. An escaped line break starts a gap
and is not itself part of it. -/
def doubleQuoted? : Progress → List Cell → Option (List Char × List Cell)
  | _, [] => none
  | .atGap gap, cell :: more =>
    if cell.isGap then doubleQuoted? (.atGap (gap.add cell)) more
    else if startsDocumentMark (cell :: more) then none
    else if cell.char = '"' then some (gap.text, more)
    else if cell.char = '\\' then
      (doubleQuoted? .atEscape more).map fun found => (gap.text ++ found.1, found.2)
    else
      (doubleQuoted? (.atGap .nothing) more).map fun found =>
        (gap.text ++ cell.char :: found.1, found.2)
  | .atEscape, cell :: more =>
    if cell.isBreak then doubleQuoted? (.atGap (.breaks none [])) more
    else if 0 < escapeWidth cell.char then
      doubleQuoted? (.atDigit (escapeWidth cell.char - 1) 0) more
    else do
      let c ← escapeLetter? cell.char
      let found ← doubleQuoted? (.atGap .nothing) more
      return (c :: found.1, found.2)
  | .atDigit left value, cell :: more => do
    let d ← Text.hexValue? cell.char
    if 0 < left then doubleQuoted? (.atDigit (left - 1) (value * 16 + d)) more
    else do
      let c ← charOf? (value * 16 + d)
      let found ← doubleQuoted? (.atGap .nothing) more
      return (c :: found.1, found.2)

/-! ### Plain scalars -/

/-- Whether a character separates or encloses the parts of a flow collection. -/
def isFlowMark (c : Char) : Bool :=
  c == ',' || c == '[' || c == ']' || c == '{' || c == '}'

/-- Whether a plain scalar may start with a cell that starts no other token. -/
def Cell.startsPlain (inFlow : Bool) (cell : Cell) : Bool :=
  if cell.char = '?' ∨ cell.char = ':' then !inFlow
  else !cell.isGap && !isFlowMark cell.char && !"#&*!|>'\"%@\x60".toList.contains cell.char

/-- Whether a colon in a flow collection stands right before a mark of the collection. -/
def misplacesColon : List Cell → Bool
  | colon :: next :: _ => colon.char == ':' && (next.char == '?' || isFlowMark next.char)
  | _ => false

/-- A plain scalar from a gap on, with the gap after it. In a block collection its further lines
start at least in the column `minimum`; a tab before that column is refused everywhere. -/
def plain? (inFlow : Bool) (minimum : Nat) (gap : Gap) :
    List Cell → Option (List Char × Gap × List Cell)
  | [] => some ([], gap, [])
  | cell :: more =>
    let here := cell :: more
    if cell.isGap then
      if cell.char = '\t' ∧ gap.hasBreak ∧ cell.column < minimum then none
      else plain? inFlow minimum (gap.add cell) more
    else if gap ≠ .nothing ∧
        (cell.char = '#' ∨ startsDocumentMark here ∨ (!inFlow ∧ cell.column < minimum)) then
      some ([], gap, here)
    else if inFlow ∧ misplacesColon here then none
    else if (cell.char = ':' ∧ startsBlank more) ∨ (inFlow ∧ isFlowMark cell.char) then
      some ([], gap, here)
    else
      (plain? inFlow minimum .nothing more).map fun found =>
        (gap.text ++ cell.char :: found.1, found.2)

end Yaml

end Interaction
