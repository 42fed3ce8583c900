/-!
# Decimal digits

A natural number in the digits `0` to `9`, without leading zeros, and back.
-/

namespace Interaction

namespace Decimal

def digitChar (d : Nat) : Char :=
  Char.ofNat (48 + d)

def digitValue (c : Char) : Nat :=
  c.toNat - 48

/-- The largest number of sixty-four bits. -/
def wordMax : Nat := 0xFFFFFFFFFFFFFFFF

def digits (n : Nat) : List Char :=
  if n < 10 then [digitChar n] else digits (n / 10) ++ [digitChar (n % 10)]
termination_by n

def value (ds : List Char) : Nat :=
  ds.foldl (fun n c => n * 10 + digitValue c) 0

theorem digitValue_digitChar {d : Nat} (h : d < 10) : digitValue (digitChar d) = d :=
  (by decide : ∀ d < 10, digitValue (digitChar d) = d) d h

theorem value_append (ds : List Char) (c : Char) :
    value (ds ++ [c]) = value ds * 10 + digitValue c := by
  simp [value]

theorem value_digits (n : Nat) : value (digits n) = n := by
  fun_induction digits n with
  | case1 n h => simp [value, digitValue_digitChar h]
  | case2 n h ih =>
    rw [value_append, ih, digitValue_digitChar (by omega)]
    omega

/-- An integer: a minus sign if it is negative, and its digits. -/
def integer (i : Int) : List Char :=
  if i < 0 then '-' :: digits i.natAbs else digits i.natAbs

end Decimal

end Interaction
