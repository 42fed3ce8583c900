/-!
# UTF-8

`encode` writes characters as bytes and `next` reads one character back. A malformed sequence is
reported by its length, the longest run of bytes that still begins some well-formed sequence, so
that reading can resume after it; a text that ends inside a sequence is told apart from one that
breaks off. `symbols` keeps reading over malformed sequences and marks each as `none`, while
`decode` stops at the first one and names it as a `Flaw`.
-/

namespace Interaction

namespace Utf8

def encodeChar (c : Char) : List UInt8 :=
  let n := c.toNat
  if n < 0x80 then [n.toUInt8]
  else if n < 0x800 then [(0xC0 + n / 64).toUInt8, (0x80 + n % 64).toUInt8]
  else if n < 0x10000 then
    [(0xE0 + n / 4096).toUInt8, (0x80 + n / 64 % 64).toUInt8, (0x80 + n % 64).toUInt8]
  else
    [(0xF0 + n / 262144).toUInt8, (0x80 + n / 4096 % 64).toUInt8, (0x80 + n / 64 % 64).toUInt8,
      (0x80 + n % 64).toUInt8]

def encode (cs : List Char) : List UInt8 :=
  cs.flatMap encodeChar

def ofText (s : String) : List UInt8 :=
  encode s.toList

/-- How many bytes a text takes. -/
def size (cs : List Char) : Nat :=
  (encode cs).length

/-- What stands at the head of a byte sequence. -/
inductive Head where
  /-- A character, with the number of bytes it takes after its first. -/
  | char (c : Char) (more : Nat)
  /-- A malformed sequence, with the number of bytes it takes after its first. -/
  | invalid (more : Nat)
  /-- The bytes end inside a sequence that was well formed so far. -/
  | incomplete
  deriving DecidableEq, Repr

/-- Whether a byte continues a sequence. -/
def isContinuation (b : UInt8) : Bool :=
  0x80 ≤ b && b ≤ 0xBF

/-- Whether a byte may follow the given first byte of a three-byte sequence: surrogates and
overlong forms are excluded. -/
def isSecondOfThree (first second : UInt8) : Bool :=
  if first == 0xE0 then 0xA0 ≤ second && second ≤ 0xBF
  else if first == 0xED then 0x80 ≤ second && second ≤ 0x9F
  else isContinuation second

/-- Whether a byte may follow the given first byte of a four-byte sequence: overlong forms and
values above `0x10FFFF` are excluded. -/
def isSecondOfFour (first second : UInt8) : Bool :=
  if first == 0xF0 then 0x90 ≤ second && second ≤ 0xBF
  else if first == 0xF4 then 0x80 ≤ second && second ≤ 0x8F
  else isContinuation second

def payload (b : UInt8) : Nat :=
  b.toNat - 0x80

/-- Reads the head of a byte sequence that starts with a two-byte sequence's first byte. -/
def nextOfTwo (first : UInt8) : List UInt8 → Head
  | [] => .incomplete
  | b₁ :: _ =>
    if isContinuation b₁ then .char (Char.ofNat ((first.toNat - 0xC0) * 64 + payload b₁)) 1
    else .invalid 0

/-- Reads the head of a byte sequence that starts with a three-byte sequence's first byte. -/
def nextOfThree (first : UInt8) : List UInt8 → Head
  | [] => .incomplete
  | [b₁] => if isSecondOfThree first b₁ then .incomplete else .invalid 0
  | b₁ :: b₂ :: _ =>
    if !isSecondOfThree first b₁ then .invalid 0
    else if !isContinuation b₂ then .invalid 1
    else .char (Char.ofNat ((first.toNat - 0xE0) * 4096 + payload b₁ * 64 + payload b₂)) 2

/-- Reads the head of a byte sequence that starts with a four-byte sequence's first byte. -/
def nextOfFour (first : UInt8) : List UInt8 → Head
  | [] => .incomplete
  | [b₁] => if isSecondOfFour first b₁ then .incomplete else .invalid 0
  | [b₁, b₂] =>
    if !isSecondOfFour first b₁ then .invalid 0
    else if isContinuation b₂ then .incomplete else .invalid 1
  | b₁ :: b₂ :: b₃ :: _ =>
    if !isSecondOfFour first b₁ then .invalid 0
    else if !isContinuation b₂ then .invalid 1
    else if !isContinuation b₃ then .invalid 2
    else .char (Char.ofNat ((first.toNat - 0xF0) * 262144 + payload b₁ * 4096 + payload b₂ * 64
      + payload b₃)) 3

/-- Reads the head of the byte sequence `first :: rest`. -/
def next (first : UInt8) (rest : List UInt8) : Head :=
  if first < 0x80 then .char (Char.ofNat first.toNat) 0
  else if 0xC2 ≤ first && first ≤ 0xDF then nextOfTwo first rest
  else if 0xE0 ≤ first && first ≤ 0xEF then nextOfThree first rest
  else if 0xF0 ≤ first && first ≤ 0xF4 then nextOfFour first rest
  else .invalid 0

/-- Where and how a byte sequence fails to be UTF-8. -/
inductive Flaw where
  | invalid (length index : Nat)
  | incomplete (index : Nat)
  deriving DecidableEq, Repr

def Flaw.message : Flaw → String
  | .invalid length index =>
    s!"invalid utf-8 sequence of {length} bytes from index {index}"
  | .incomplete index => s!"incomplete utf-8 byte sequence from index {index}"

/-- The characters of a byte sequence that follows `index` earlier bytes, or its first flaw. -/
def decodeFrom (index : Nat) (bytes : List UInt8) : Except Flaw (List Char) :=
  match bytes with
  | [] => .ok []
  | first :: rest =>
    match next first rest with
    | .char c more => (decodeFrom (index + 1 + more) (rest.drop more)).map (c :: ·)
    | .invalid more => .error (.invalid (1 + more) index)
    | .incomplete => .error (.incomplete index)
termination_by bytes.length
decreasing_by exact Nat.lt_succ_of_le (List.drop_sublist _ _).length_le

def decode (bytes : List UInt8) : Except Flaw (List Char) :=
  decodeFrom 0 bytes

/-- The characters of a byte sequence, with `none` for each malformed stretch. -/
def symbols (bytes : List UInt8) : List (Option Char) :=
  match bytes with
  | [] => []
  | first :: rest =>
    match next first rest with
    | .char c more => some c :: symbols (rest.drop more)
    | .invalid more => none :: symbols (rest.drop more)
    | .incomplete => [none]
termination_by bytes.length
decreasing_by all_goals exact Nat.lt_succ_of_le (List.drop_sublist _ _).length_le

end Utf8

end Interaction
