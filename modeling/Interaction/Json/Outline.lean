import Interaction.Json.Value
import Interaction.Text.Hex

/-!
# Outlines of JSON texts

Whoever reads a JSON text in one pass meets its parts in order and stops at the first problem. The
outline of a text is what there is to meet: the tree of the values up to the first place where the
text is no JSON, which is marked as `broken` and after which nothing follows. A part that is
skipped need only be JSON. A part that is read must also be readable: a string must be UTF-8
without stray surrogates, and a number must not exceed every double. So strings and numbers that
cannot be read still have a place in the outline, without a value.

The input is a list of characters with `none` for each stretch of bytes that is no UTF-8.
-/

namespace Interaction

namespace Json

/-- What a reader of a JSON text meets. -/
inductive Outline where
  | null
  | bool (value : Bool)
  | number (value : Option Number)
  | string (value : Option String)
  | array (items : List Outline)
  /-- The members in order; a key without a value cannot be read. -/
  | object (members : List (Option String × Outline))
  /-- The text stops being JSON here. -/
  | broken
  deriving Repr

/-- A character of the input, or bytes that are none. -/
abbrev Symbol := Option Char

namespace Outline

def isSpace (s : Symbol) : Bool :=
  s == some ' ' || s == some '\n' || s == some '\t' || s == some '\r'

/-- The input from the next character that is not blank. -/
def skipSpace (input : List Symbol) : List Symbol :=
  input.dropWhile isSpace

/-! ### Strings -/

/-- A piece of a string. -/
inductive Piece where
  | char (c : Char)
  /-- An escaped unit of sixteen bits. -/
  | unit (n : Nat)
  /-- Bytes that are no UTF-8. -/
  | garbled
  deriving DecidableEq, Repr

/-- The number that four hexadecimal digits stand for. -/
def unit? (a b c d : Symbol) : Option Nat := do
  let high ← Text.hexValue? (← a)
  let mid ← Text.hexValue? (← b)
  let low ← Text.hexValue? (← c)
  let last ← Text.hexValue? (← d)
  return ((high * 16 + mid) * 16 + low) * 16 + last

/-- The character that a backslash and one more character stand for. -/
def escaped? (c : Char) : Option Char :=
  match c with
  | '"' => some '"'
  | '\\' => some '\\'
  | '/' => some '/'
  | 'b' => some '\x08'
  | 'f' => some '\x0c'
  | 'n' => some '\n'
  | 'r' => some '\r'
  | 't' => some '\t'
  | _ => none

/-- The pieces of a string whose opening quote has been read, and the input after its closing
quote. A control character or an unknown escape is no JSON. -/
def pieces? : List Symbol → Option (List Piece × List Symbol)
  | [] => none
  | none :: rest => (pieces? rest).map fun found => (.garbled :: found.1, found.2)
  | some '"' :: rest => some ([], rest)
  | some '\\' :: some 'u' :: a :: b :: c :: d :: rest =>
    match unit? a b c d with
    | some n => (pieces? rest).map fun found => (.unit n :: found.1, found.2)
    | none => none
  | some '\\' :: some c :: rest =>
    match escaped? c with
    | some value => (pieces? rest).map fun found => (.char value :: found.1, found.2)
    | none => none
  | some c :: rest =>
    if c = '\\' ∨ c.toNat < 0x20 then none
    else (pieces? rest).map fun found => (.char c :: found.1, found.2)

/-- Whether a unit is the first half of a surrogate pair. -/
def isHighSurrogate (n : Nat) : Bool :=
  0xD800 ≤ n && n ≤ 0xDBFF

/-- Whether a unit is the second half of a surrogate pair. -/
def isLowSurrogate (n : Nat) : Bool :=
  0xDC00 ≤ n && n ≤ 0xDFFF

/-- The characters of a string, none if a piece is garbled or a surrogate stands alone. -/
def text? : List Piece → Option (List Char)
  | [] => some []
  | .char c :: rest => (text? rest).map (c :: ·)
  | .unit high :: .unit low :: rest =>
    if isHighSurrogate high && isLowSurrogate low then
      (text? rest).map (Char.ofNat (0x10000 + (high - 0xD800) * 1024 + (low - 0xDC00)) :: ·)
    else if isHighSurrogate high || isLowSurrogate high then none
    else (text? (.unit low :: rest)).map (Char.ofNat high :: ·)
  | .unit n :: rest =>
    if isHighSurrogate n || isLowSurrogate n then none
    else (text? rest).map (Char.ofNat n :: ·)
  | .garbled :: _ => none

/-- A string whose opening quote has been read. -/
def string? (input : List Symbol) : Option (Option String × List Symbol) :=
  (pieces? input).map fun found => ((text? found.1).map String.ofList, found.2)

/-! ### Numerals -/

def takeDigits : List Symbol → List Char × List Symbol
  | some c :: rest =>
    if c.isDigit then
      let found := takeDigits rest
      (c :: found.1, found.2)
    else ([], some c :: rest)
  | input => ([], input)

def digits? (input : List Symbol) : Option (List Char × List Symbol) :=
  let found := takeDigits input
  if found.1 = [] then none else some found

/-- The digits before the point: a zero alone, or digits that do not start with one. -/
def whole? (input : List Symbol) : Option (List Char × List Symbol) := do
  let found ← digits? input
  if found.1.head? = some '0' ∧ found.1.length ≠ 1 then none else some found

/-- The digits after a point, if one comes next. -/
def fraction? : List Symbol → Option (Option (List Char) × List Symbol)
  | some '.' :: rest => (digits? rest).map fun found => (some found.1, found.2)
  | input => some (none, input)

/-- The digits of an exponent, perhaps after a sign. -/
def exponentDigits? : List Symbol → Option ((Bool × List Char) × List Symbol)
  | some '+' :: rest => (digits? rest).map fun found => ((false, found.1), found.2)
  | some '-' :: rest => (digits? rest).map fun found => ((true, found.1), found.2)
  | input => (digits? input).map fun found => ((false, found.1), found.2)

/-- An exponent, if one comes next. -/
def exponent? : List Symbol → Option (Option (Bool × List Char) × List Symbol)
  | some 'e' :: rest => (exponentDigits? rest).map fun found => (some found.1, found.2)
  | some 'E' :: rest => (exponentDigits? rest).map fun found => (some found.1, found.2)
  | input => some (none, input)

def unsigned? (isNegative : Bool) (input : List Symbol) : Option (Numeral × List Symbol) := do
  let whole ← whole? input
  let fraction ← fraction? whole.2
  let exponent ← exponent? fraction.2
  return (⟨isNegative, whole.1, fraction.1, exponent.1⟩, exponent.2)

def numeral? : List Symbol → Option (Numeral × List Symbol)
  | some '-' :: rest => unsigned? true rest
  | input => unsigned? false input

/-! ### Values -/

/-- An outline and the input after it; there is none after a broken one. -/
abbrev Found (α : Type) := α × Option (List Symbol)

/-- The input after a word, if the word comes next. -/
def word? : List Char → List Symbol → Option (List Symbol)
  | [], input => some input
  | c :: cs, some d :: rest => if c = d then word? cs rest else none
  | _ :: _, _ => none

/-- The outline that an optional reading gives. -/
def orBroken {α : Type} (f : α → Outline) : Option (α × List Symbol) → Found Outline
  | none => (.broken, none)
  | some (a, rest) => (f a, some rest)

/-- One of the words of JSON, of which the first letter has been read. -/
def literal (word : List Char) (value : Outline) (input : List Symbol) : Found Outline :=
  orBroken (fun _ => value) ((word? word input).map fun rest => ((), rest))

mutual

/-- The outline of a value. Each nested value reads a character, so `fuel` is enough if it exceeds
the length of the input. -/
def value : (fuel : Nat) → List Symbol → Found Outline
  | 0, _ => (.broken, none)
  | fuel + 1, input =>
    match skipSpace input with
    | some 'n' :: rest => literal ['u', 'l', 'l'] .null rest
    | some 't' :: rest => literal ['r', 'u', 'e'] (.bool true) rest
    | some 'f' :: rest => literal ['a', 'l', 's', 'e'] (.bool false) rest
    | some '"' :: rest => orBroken .string (string? rest)
    | some '[' :: rest =>
      match skipSpace rest with
      | some ']' :: after => (.array [], some after)
      | _ =>
        let found := items fuel rest
        (.array found.1, found.2)
    | some '{' :: rest =>
      match skipSpace rest with
      | some '}' :: after => (.object [], some after)
      | _ =>
        let found := members fuel rest
        (.object found.1, found.2)
    | other => orBroken (fun n => .number (Number.ofNumeral? n)) (numeral? other)

/-- The items of an array, up to its closing bracket. -/
def items : (fuel : Nat) → List Symbol → Found (List Outline)
  | 0, _ => ([.broken], none)
  | fuel + 1, input =>
    match value fuel input with
    | (item, none) => ([item], none)
    | (item, some rest) =>
      match skipSpace rest with
      | some ']' :: after => ([item], some after)
      | some ',' :: more =>
        let found := items fuel more
        (item :: found.1, found.2)
      | _ => ([item, .broken], none)

/-- The members of an object, up to its closing brace. -/
def members : (fuel : Nat) → List Symbol → Found (List (Option String × Outline))
  | 0, _ => ([(none, .broken)], none)
  | fuel + 1, input =>
    match skipSpace input with
    | some '"' :: rest =>
      match string? rest with
      | none => ([(none, .broken)], none)
      | some (key, afterKey) =>
        match skipSpace afterKey with
        | some ':' :: afterColon =>
          match value fuel afterColon with
          | (member, none) => ([(key, member)], none)
          | (member, some afterValue) =>
            match skipSpace afterValue with
            | some '}' :: after => ([(key, member)], some after)
            | some ',' :: more =>
              let found := members fuel more
              ((key, member) :: found.1, found.2)
            | _ => ([(key, member), (none, .broken)], none)
        | _ => ([(key, .broken)], none)
    | _ => ([(none, .broken)], none)

end

/-- The outline of the value at the front of an input, and whether nothing but blanks follows. -/
def parse (input : List Symbol) : Outline × Bool :=
  let found := value (2 * input.length + 2) input
  match found.2 with
  | none => (found.1, true)
  | some rest => (found.1, skipSpace rest = [])

mutual

/-- Whether an outline was read to its end. -/
def isWhole : Outline → Bool
  | .broken => false
  | .array items => areWhole items
  | .object members => areWholeMembers members
  | _ => true

def areWhole : List Outline → Bool
  | [] => true
  | item :: more => isWhole item && areWhole more

def areWholeMembers : List (Option String × Outline) → Bool
  | [] => true
  | (_, value) :: more => isWhole value && areWholeMembers more

end

end Outline

end Json

end Interaction
