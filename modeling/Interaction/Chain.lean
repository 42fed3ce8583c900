import Interaction.Address
import Interaction.Failure
import Interaction.Table

/-!
# Chains

A chain is the state of one network that templates are built against: its height, the code of its
deployed contracts by account and name, and which contracts cannot be read. Accounts are stored
under normalised addresses, so any spelling of an address finds its account.
-/

namespace Interaction

/-- One network's deployed contracts. -/
structure Chain where
  network : String
  height : Nat
  /-- Code by normalised address and contract name. -/
  accounts : Table (Table (List UInt8)) := ∅
  /-- The keys of contracts that cannot be read. -/
  failing : List String := []
  deriving DecidableEq, Repr

namespace Chain

def key (address name : String) : String :=
  Address.normalize address ++ "." ++ name

/-- Deploys code, which takes the place of earlier code. -/
def deploy (chain : Chain) (address name : String) (code : List UInt8) : Chain :=
  { chain with
    accounts := chain.accounts.update (Address.normalize address) ∅ fun contracts =>
      contracts.insert name code }

def fail (chain : Chain) (address name : String) : Chain :=
  { chain with failing := key address name :: chain.failing }

/-- The chain of a snapshot. Of accounts whose addresses are spellings of one address, the last
one counts. -/
def ofSnapshot (network : String) (height : Nat) (accounts : Table (Table (List UInt8))) :
    Chain where
  network := network
  height := height
  accounts := Table.ofList (accounts.entries.map fun account =>
    (Address.normalize account.1, account.2))

def code? (chain : Chain) (address name : String) : Option (List UInt8) :=
  (chain.accounts.get? (Address.normalize address)).bind fun contracts => contracts.get? name

def fetch (chain : Chain) (address name : String) : Except Failure (List UInt8) :=
  if chain.failing.contains (key address name) then
    .error (.fetch name address chain.network .accountUnavailable)
  else
    match chain.code? address name with
    | some code => .ok code
    | none => .error (.fetch name address chain.network .notDeployed)

def latestHeight (chain : Chain) (network : String) : Except Failure Nat :=
  if network = chain.network then .ok chain.height
  else .error (.fetch "" "" network (.serves chain.network))

def size (chain : Chain) : Nat :=
  chain.accounts.values.foldl (fun n contracts => n + contracts.size) 0

end Chain

end Interaction
