import Interaction.Yaml.Scalar

/-!
# Tokens of YAML

The tokens of a text, with marks where block collections start and end. A block collection is held
together by the column its members start in. That a token was the start of a key is only known at
the colon after it, so the places where a key may have started are kept until then. Such a key is
on one line with its colon, and not too long.
-/

namespace Interaction

namespace Yaml

inductive Token where
  | documentStart
  | documentEnd
  | blockSequence
  | blockMapping
  | blockEnd
  | openBracket
  | closeBracket
  | openBrace
  | closeBrace
  | comma
  | dash
  | key
  | value
  | scalar (text : String) (isPlain : Bool)
  deriving DecidableEq, Repr

/-- A place where a key may have started. -/
structure KeyStart where
  /-- How many tokens come before it. -/
  before : Nat
  cell : Cell
  /-- Whether a colon has to follow, because a key has to start in this column. -/
  isRequired : Bool
  deriving DecidableEq, Repr

namespace KeyStart

/-- How many bytes a key may take up to its colon. -/
def lengthLimit : Nat := 1024

/-- Whether a token is too far away for the colon of a key. -/
def isOver (start : KeyStart) (cell : Cell) : Bool :=
  decide (start.cell.line < cell.line) ||
    decide (start.cell.offset + lengthLimit < cell.offset)

/-- What is left of a place where a key may have started, at a token. -/
def expire? (cell : Cell) : Option KeyStart → Option (Option KeyStart)
  | some start =>
    if start.isOver cell then if start.isRequired then none else some none
    else some (some start)
  | none => some none

end KeyStart

/-- What is known of the part of a text that has been read. -/
structure Scan where
  /-- The tokens, the last one first. -/
  tokens : List Token := []
  /-- The columns of the open block collections, the innermost first. -/
  blocks : List Nat := []
  /-- Where a key of the innermost open collection may have started. -/
  start : Option KeyStart := none
  /-- The same of the collections around the open flow collections, the innermost first. -/
  outer : List (Option KeyStart) := []
  mayStart : Bool := true
  deriving DecidableEq, Repr

namespace Scan

def inFlow (s : Scan) : Bool :=
  !s.outer.isEmpty

/-- The first column inside the innermost block collection. -/
def minimum (s : Scan) : Nat :=
  match s.blocks with
  | [] => 0
  | column :: _ => column + 1

def emit (s : Scan) (token : Token) : Scan :=
  { s with tokens := token :: s.tokens }

/-- Adds a token after as many tokens as given. -/
def insert (s : Scan) (before : Nat) (token : Token) : Scan :=
  let later := s.tokens.length - before
  { s with tokens := s.tokens.take later ++ token :: s.tokens.drop later }

/-- Starts a block collection in a column that lies inside of the others. -/
def openBlock (s : Scan) (column before : Nat) (token : Token) : Scan :=
  if s.inFlow ∨ column < s.minimum then s
  else { s.insert before token with blocks := column :: s.blocks }

/-- Ends the block collections that a column does not lie in. -/
def closeBlocks (s : Scan) (isOutside : Nat → Bool) : Scan :=
  if s.inFlow then s
  else
    { s with
      tokens := ((s.blocks.takeWhile isOutside).map fun _ => .blockEnd) ++ s.tokens
      blocks := s.blocks.dropWhile isOutside }

/-- Gives up that a key may have started. -/
def dropStart? (s : Scan) : Option Scan :=
  if s.start.any KeyStart.isRequired then none else some { s with start := none }

/-- Keeps a place where a key may start. -/
def keepStart? (s : Scan) (cell : Cell) : Option Scan :=
  if s.mayStart then
    let isRequired := !s.inFlow && s.blocks.head? == some cell.column
    s.dropStart?.map fun s => { s with start := some ⟨s.tokens.length, cell, isRequired⟩ }
  else some s

/-- Passes to a token. Keys that can no longer have a colon are given up, and block collections
that it does not lie in are ended. -/
def advance? (s : Scan) (cell : Cell) : Option Scan := do
  let start ← KeyStart.expire? cell s.start
  let outer ← s.outer.mapM (KeyStart.expire? cell)
  return { s with start := start, outer := outer }.closeBlocks fun column => cell.column < column

def documentMark? (s : Scan) (token : Token) : Option Scan :=
  (s.closeBlocks fun _ => true).dropStart?.map fun s => { s.emit token with mayStart := false }

def openFlow? (s : Scan) (cell : Cell) (token : Token) : Option Scan :=
  (s.keepStart? cell).map fun s =>
    { s.emit token with start := none, outer := s.start :: s.outer, mayStart := true }

/-- Closes a flow collection. The whole of it may have been a key. -/
def closeFlow? (s : Scan) (token : Token) : Option Scan :=
  s.dropStart?.map fun s =>
    match s.outer with
    | [] => { s.emit token with mayStart := false }
    | start :: outer => { s.emit token with start := start, outer := outer, mayStart := false }

def comma? (s : Scan) : Option Scan :=
  s.dropStart?.map fun s => { s.emit .comma with mayStart := true }

/-- Reads the hyphen of an item. -/
def dash? (s : Scan) (cell : Cell) : Option Scan :=
  if !s.inFlow && !s.mayStart then none
  else
    (s.openBlock cell.column s.tokens.length .blockSequence).dropStart?.map fun s =>
      { s.emit .dash with mayStart := true }

/-- Reads the question mark of a key. -/
def questionMark? (s : Scan) (cell : Cell) : Option Scan :=
  if !s.inFlow && !s.mayStart then none
  else
    (s.openBlock cell.column s.tokens.length .blockMapping).dropStart?.map fun s =>
      { s.emit .key with mayStart := !s.inFlow }

/-- Reads the colon of a value. If a key may have started before it, one has. -/
def colon? (s : Scan) (cell : Cell) : Option Scan :=
  match s.start with
  | some start =>
    let s := (s.insert start.before .key).openBlock start.cell.column start.before .blockMapping
    some { s.emit .value with start := none, mayStart := false }
  | none =>
    if s.inFlow then some { s.emit .value with mayStart := false }
    else if s.mayStart then
      some ((s.openBlock cell.column s.tokens.length .blockMapping).emit .value)
    else none

/-- Adds a scalar, after which a key may start on the next line. -/
def scalar (s : Scan) (text : List Char) (isPlain endsLine : Bool) : Scan :=
  { s.emit (.scalar (String.ofList text) isPlain) with mayStart := endsLine }

/-- Reads the token that starts with a cell. -/
def token? (s : Scan) (cell : Cell) (more : List Cell) : Option (Scan × List Cell) := do
  let s ← s.advance? cell
  let alone := s.inFlow || startsBlank more
  if startsDocumentMark (cell :: more) then
    let token := if cell.char = '-' then .documentStart else .documentEnd
    return (← s.documentMark? token, more.drop 2)
  else if cell.char = '[' then return (← s.openFlow? cell .openBracket, more)
  else if cell.char = '{' then return (← s.openFlow? cell .openBrace, more)
  else if cell.char = ']' then return (← s.closeFlow? .closeBracket, more)
  else if cell.char = '}' then return (← s.closeFlow? .closeBrace, more)
  else if cell.char = ',' then return (← s.comma?, more)
  else if cell.char = '-' ∧ startsBlank more then return (← s.dash? cell, more)
  else if cell.char = '?' ∧ alone then return (← s.questionMark? cell, more)
  else if cell.char = ':' ∧ alone then return (← s.colon? cell, more)
  else
    let s ← s.keepStart? cell
    if cell.char = '\'' then
      let found ← singleQuoted? .nothing more
      return (s.scalar found.1 false false, found.2)
    else if cell.char = '"' then
      let found ← doubleQuoted? (.atGap .nothing) more
      return (s.scalar found.1 false false, found.2)
    else if cell.startsPlain s.inFlow then
      let found ← plain? s.inFlow s.minimum .nothing (cell :: more)
      return (s.scalar found.1 true found.2.1.hasBreak, found.2.2)
    else none

/-- Passes over what stands before the next token, and tells whether a key may start there.
Outside of flow collections a key may start on every new line, and tabs are not passed over where
a key may start. A byte order mark may come first on a line, where it takes a column. Where a token
might start, a number sign starts a comment. -/
def toToken (inFlow : Bool) (mayStart inComment : Bool) : List Cell → Bool × List Cell
  | [] => (mayStart, [])
  | cell :: more =>
    if cell.isBreak then toToken inFlow (mayStart || !inFlow) false more
    else if inComment ∨ cell.isOrderMark ∨ cell.char = ' ' ∨
        (cell.char = '\t' ∧ (inFlow ∨ !mayStart)) then
      toToken inFlow mayStart inComment more
    else if cell.char = '#' then toToken inFlow mayStart true more
    else (mayStart, cell :: more)

def run? : (fuel : Nat) → Scan → List Cell → Option Scan
  | 0, _, _ => none
  | fuel + 1, s, cells =>
    match toToken s.inFlow s.mayStart false cells with
    | (_, []) => (s.closeBlocks fun _ => true).dropStart?
    | (mayStart, cell :: more) => do
      let next ← { s with mayStart := mayStart }.token? cell more
      run? fuel next.1 next.2

end Scan

def tokens? (text : String) : Option (List Token) :=
  if text.toList.all isAllowed then
    (Scan.run? (text.length + 1) {} (cells text)).map fun s => s.tokens.reverse
  else none

end Yaml

end Interaction
