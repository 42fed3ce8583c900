import Interaction.Decimal.Shortest

/-!
# Numbers in JSON

A numeral is read as an integer if it is written as one and fits sixty-four bits, with or without
a sign, and otherwise as a double. A double is held by its shortest text, positional for
magnitudes from `1e-5` to below `1e16`. The value of a longer numeral is approximated: its first
digits that fit sixty-four bits are scaled by a power of ten, which can miss the nearest double by
a little.
-/

namespace Interaction

namespace Json

inductive Number where
  /-- An integer that fits sixty-four bits. -/
  | integer (value : Int)
  /-- Any other number, by the shortest text of its double. -/
  | double (text : String)
  deriving DecidableEq, Repr

structure Numeral where
  isNegative : Bool
  whole : List Char
  /-- The digits after the point, if there is one. -/
  fraction : Option (List Char)
  /-- Whether the exponent is negative, and its digits. -/
  exponent : Option (Bool × List Char)
  deriving DecidableEq, Repr

/-- The text of a decimal with a fraction or an exponent: positional where the leading digit stands
at a place from `-5` to `15`, and otherwise with a signed exponent. -/
def doubleText (isNegative : Bool) (d : Decimal.Scaled) : String :=
  let digits := Decimal.digits d.digits
  let place : Int := digits.length - 1 + d.exponent
  let body :=
    if -5 ≤ place ∧ place ≤ 15 then
      if 0 ≤ d.exponent then digits ++ List.replicate d.exponent.toNat '0' ++ ['.', '0']
      else if 0 ≤ place then
        digits.take (place.toNat + 1) ++ '.' :: digits.drop (place.toNat + 1)
      else '0' :: '.' :: List.replicate (-place - 1).toNat '0' ++ digits
    else
      let tail := digits.drop 1
      digits.take 1 ++ (if tail = [] then [] else '.' :: tail) ++
        ['e', if place < 0 then '-' else '+'] ++ Decimal.digits place.natAbs
  String.ofList (if isNegative then '-' :: body else body)

def stripZeros (fuel : Nat) (d : Decimal.Scaled) : Decimal.Scaled :=
  match fuel with
  | 0 => d
  | fuel + 1 =>
    if d.digits ≠ 0 ∧ d.digits % 10 = 0 then stripZeros fuel ⟨d.digits / 10, d.exponent + 1⟩ else d

def textOfDouble (f : Float) : String :=
  let bits := f.toBits
  let isNegative := bits ≥ 0x8000000000000000
  let binary := Decimal.Binary.ofBits bits
  if binary.significand = 0 then if isNegative then "-0.0" else "0.0"
  else doubleText isNegative (stripZeros 20 binary.shortest)

/-- Takes digits into a number for as long as it fits sixty-four bits; answers the number and the
digits that were left. -/
def takeDigits (n : Nat) : List Char → Nat × List Char
  | [] => (n, [])
  | c :: cs =>
    let more := n * 10 + Decimal.digitValue c
    if more ≤ Decimal.wordMax then takeDigits more cs else (n, c :: cs)

def powerOfTen (n : Nat) : Float :=
  Float.ofScientific 1 false n

/-- Divides by ten to the power 308 as long as the exponent is below that, and then by what is
left of the exponent. -/
def scaleDown (fuel : Nat) (f : Float) (exponent : Nat) : Float :=
  match fuel with
  | 0 => f
  | fuel + 1 =>
    if exponent ≤ 308 then f / powerOfTen exponent
    else if f == 0 then f
    else scaleDown fuel (f / powerOfTen 308) (exponent - 308)

/-- A significand scaled by a power of ten, none if that exceeds every double. -/
def scale? (significand : Nat) (exponent : Int) : Option Float :=
  let f := significand.toUInt64.toFloat
  if exponent < 0 then some (scaleDown 4 f exponent.natAbs)
  else if exponent ≤ 308 then
    let product := f * powerOfTen exponent.toNat
    if product.isInf then none else some product
  else if significand = 0 then some f
  else none

def magnitude? (n : Numeral) (significand : Nat) (dropped : Nat) : Option Float :=
  let (significand, places) :=
    match n.fraction with
    | none => (significand, (0 : Nat))
    | some ds =>
      let taken := takeDigits significand ds
      (taken.1, ds.length - taken.2.length)
  let base : Int := (dropped : Int) - places
  match n.exponent with
  | none => scale? significand base
  | some (isNegative, ds) =>
    let power := Decimal.value ds
    if power < 0x80000000 then
      let total := if isNegative then base - power else base + power
      scale? significand (max (-0x80000000) (min total 0x7FFFFFFF))
    else if significand ≠ 0 ∧ !isNegative then none
    else some 0

def Number.ofNumeral? (n : Numeral) : Option Number :=
  let taken := takeDigits 0 n.whole
  let signed (f : Float) : Number := .double (textOfDouble (if n.isNegative then -f else f))
  if taken.2 = [] ∧ n.fraction = none ∧ n.exponent = none then
    if !n.isNegative then some (.integer taken.1)
    else if taken.1 ≠ 0 ∧ taken.1 ≤ 0x8000000000000000 then some (.integer (-taken.1))
    else some (signed taken.1.toUInt64.toFloat)
  else (magnitude? n taken.1 taken.2.length).map signed

def Number.text : Number → List Char
  | .integer value => Decimal.integer value
  | .double text => text.toList

end Json

end Interaction
