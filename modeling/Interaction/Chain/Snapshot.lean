import Interaction.Chain
import Interaction.Yaml.Document

/-!
# Snapshots of chains

A snapshot is a YAML mapping of a network, a height and the code of contracts by account and name.
-/

namespace Interaction

namespace Chain

structure Snapshot where
  network : String
  height : Nat
  accounts : Table (Table String) := ∅
  deriving DecidableEq, Repr

namespace Snapshot

open Yaml (Node)

def fields : List (Node.Field Snapshot) := [
  { key := "network"
    isRequired := true
    put? := fun node snapshot => node.text?.map fun name => { snapshot with network := name } },
  { key := "height"
    isRequired := true
    put? := fun node snapshot => node.natural?.map fun n => { snapshot with height := n } },
  { key := "accounts"
    put? := fun node snapshot =>
      (node.table? (Node.table? Node.text?)).map fun found =>
        { snapshot with accounts := found } }]

def parse? (text : String) : Option Snapshot :=
  (Yaml.parse? text).bind (Node.record? fields { network := "", height := 0 })

def faultMessage : String := "Failed to parse chain snapshot: " ++ Yaml.fault

def toChain (snapshot : Snapshot) : Chain :=
  .ofSnapshot snapshot.network snapshot.height
    (snapshot.accounts.map fun contracts => contracts.map Utf8.ofText)

end Snapshot

end Chain

end Interaction
