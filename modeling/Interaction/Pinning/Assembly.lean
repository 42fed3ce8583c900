import Interaction.Digest
import Interaction.Failure
import Interaction.Pinning.Cache
import Interaction.Pinning.Session

/-!
# Assembling pin trees

The pin tree of a contract is put together from the cache, its imports first. A contract that is
met again below itself closes a cycle, and the failure names the keys from the root to the second
meeting. Trees are kept as they are finished, so a contract that is imported twice is put together
once.
-/

namespace Interaction

namespace Assembly

/-- The tree of a contract whose imports have theirs. -/
def node (contract : Fetched) (imports : List PinTree) : PinTree where
  pin := Digest.ofTexts (contract.own :: imports.map PinTree.pin)
  own := contract.own
  name := contract.site.name
  address := contract.site.address
  imports := imports

/-- Does something for each site in order with the cache the one before has left, and stops at the
first failure. -/
def forEach (f : Site → Cache → Except Failure PinTree × Cache) :
    List Site → Cache → Except Failure (List PinTree) × Cache
  | [], cache => (.ok [], cache)
  | site :: more, cache =>
    match f site cache with
    | (.error failure, cache) => (.error failure, cache)
    | (.ok tree, cache) =>
      match forEach f more cache with
      | (.error failure, cache) => (.error failure, cache)
      | (.ok trees, cache) => (.ok (tree :: trees), cache)

/-- The tree of the contract with the given key, which was reached along a path of keys. -/
def within (network : String) (context : Context) :
    (depth : Nat) → (path : List String) → (key : String) → Cache → Except Failure PinTree × Cache
  | 0, path, key, cache => (.error (.cycle (path ++ [key])), cache)
  | depth + 1, path, key, cache =>
    if context.isOver then (.error .cancelled, cache)
    else
      match cache.pin? key with
      | some tree => (.ok tree, cache)
      | none =>
        if path.contains key then (.error (.cycle (path ++ [key])), cache)
        else
          match cache.contract? key with
          | none => (.error (.fetch key "" network .neverFetched), cache)
          | some contract =>
            let step site := within network context depth (path ++ [key]) (site.key network)
            match forEach step contract.children cache with
            | (.error failure, cache) => (.error failure, cache)
            | (.ok imports, cache) =>
              let tree := node contract imports
              (.ok tree, cache.setPin key tree)

/-- The tree of a contract. The keys on a path are different keys of cached contracts, so no path
is longer than the cache. -/
def assemble (network : String) (context : Context) (key : String) (cache : Cache) :
    Except Failure PinTree × Cache :=
  within network context (cache.size + 1) [] key cache

end Assembly

end Interaction
