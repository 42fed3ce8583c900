import Interaction.Decimal.Digits

/-!
# Shortest decimals

A binary fraction with a fifty-three bit significand stands for every real number that rounds to
it. `shortest` finds the decimal with the fewest digits among those, and of several with the same
number of digits the one nearest to the fraction. The search goes over the number of digits: on
each decimal grid only the two neighbours of the fraction can be the answer. All comparisons are
between natural numbers.
-/

namespace Interaction

namespace Decimal

/-- A positive binary fraction, `significand` times two to the power `exponent`. -/
structure Binary where
  significand : Nat
  exponent : Int
  /-- Whether the next smaller fraction is only half as far away as the next larger one. -/
  closeBelow : Bool
  deriving Repr

/-- The fraction that the bits of a double stand for, their sign aside. -/
def Binary.ofBits (bits : UInt64) : Binary :=
  let fraction : Nat := bits.toNat % 0x10000000000000
  let biased : Nat := bits.toNat / 0x10000000000000 % 0x800
  if biased = 0 then ⟨fraction, -1074, false⟩
  else ⟨0x10000000000000 + fraction, (biased : Int) - 1075, fraction = 0 && biased > 1⟩

structure Scaled where
  digits : Nat
  exponent : Int
  deriving DecidableEq, Repr

/-- Factors that bring multiples of ten to the power `e` and multiples of two to the power `q` to
one scale. -/
def commonScale (e q : Int) : Nat × Nat :=
  (Nat.pow 10 e.toNat * Nat.pow 2 (-q).toNat, Nat.pow 2 q.toNat * Nat.pow 10 (-e).toNat)

def Binary.magnitude (b : Binary) : Int :=
  let scaled :=
    b.significand * Nat.pow 2 b.exponent.toNat * Nat.pow 10 400 / Nat.pow 2 (-b.exponent).toNat
  (Decimal.digits scaled).length - 401

/-- The decimal on the grid of multiples of ten to the power `e` that is nearest to the fraction
among those that round to it. -/
def Binary.onGrid? (b : Binary) (e : Int) : Option Scaled :=
  -- quarters of the last place, so that the ends of the interval are whole
  let (grid, unit) := commonScale e (b.exponent - 2)
  let middle := 4 * b.significand * unit
  let low := (4 * b.significand - if b.closeBelow then 1 else 2) * unit
  let high := (4 * b.significand + 2) * unit
  let even := b.significand % 2 = 0
  let inside (d : Nat) : Bool :=
    if even then low ≤ d * grid && d * grid ≤ high else low < d * grid && d * grid < high
  let below := middle / grid
  let above := below + 1
  if inside below then
    if inside above then
      let toBelow := middle - below * grid
      let toAbove := above * grid - middle
      if toBelow < toAbove || (toBelow = toAbove && below % 2 = 0) then some ⟨below, e⟩
      else some ⟨above, e⟩
    else some ⟨below, e⟩
  else if inside above then some ⟨above, e⟩
  else none

/-- The shortest decimal that rounds to the fraction. -/
def Binary.shortest (b : Binary) : Scaled :=
  let top := b.magnitude
  let found := (List.range 17).findSome? fun (more : Nat) => b.onGrid? (top - more)
  found.getD ⟨0, 0⟩

end Decimal

end Interaction
