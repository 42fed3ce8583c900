/-!
# Pins

A pin tree commits to a deployed contract and to everything it imports: `own` is the digest of the
contract's code, and `pin` the digest of `own` followed by the pins of its imports. A network pin
is the digest of an interaction's code as it runs on one network.
-/

namespace Interaction

/-- The pin of a deployed contract, with the pins of its imports in their order. -/
structure PinTree where
  pin : String
  own : String
  name : String
  address : String
  imports : List PinTree
  deriving Repr

namespace PinTree

mutual

def decideEq : (s t : PinTree) → Decidable (s = t)
  | ⟨pin₁, own₁, name₁, address₁, imports₁⟩, ⟨pin₂, own₂, name₂, address₂, imports₂⟩ =>
    if h : pin₁ = pin₂ ∧ own₁ = own₂ ∧ name₁ = name₂ ∧ address₁ = address₂ then
      match decideEqs imports₁ imports₂ with
      | isTrue same => isTrue (by simp [h, same])
      | isFalse other => isFalse (by simp [other])
    else isFalse (by
      intro same
      injection same with h₁ h₂ h₃ h₄
      exact h ⟨h₁, h₂, h₃, h₄⟩)

def decideEqs : (s t : List PinTree) → Decidable (s = t)
  | [], [] => isTrue rfl
  | [], _ :: _ => isFalse nofun
  | _ :: _, [] => isFalse nofun
  | s :: ss, t :: ts =>
    match decideEq s t with
    | isFalse other => isFalse (by simp [other])
    | isTrue same =>
      match decideEqs ss ts with
      | isTrue more => isTrue (by simp [same, more])
      | isFalse other => isFalse (by simp [other])

end

instance : DecidableEq PinTree :=
  decideEq

end PinTree

/-- What is recorded of a pinned contract: the height of the chain when it was pinned, its pin, and
the tree where the format stores it. -/
structure PinRecord where
  height : Nat
  pin : String
  tree : Option PinTree
  deriving DecidableEq, Repr

def PinRecord.ofTree (height : Nat) (tree : PinTree) : PinRecord :=
  ⟨height, tree.pin, some tree⟩

/-- The digest of an interaction's code on one network. -/
structure NetworkPin where
  network : String
  digest : String
  deriving DecidableEq, Repr

namespace NetworkPin

/-- Network pins in the order of their networks; pins of one network keep their order. -/
def sort (pins : List NetworkPin) : List NetworkPin :=
  pins.mergeSort fun a b => a.network ≤ b.network

end NetworkPin

end Interaction
