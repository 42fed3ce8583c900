import Interaction.Chain.Snapshot
import Interaction.Proofs.Table
import Mathlib

/-!
# What a snapshot deploys

A snapshot lists the contracts of a chain by account. Several of its accounts may be spellings of
one address. Deploying the contracts one after another brings the accounts together, and of two
contracts of one name the later one stays. Loading the snapshot takes the last account of an
address alone: a contract that only an earlier one lists is lost. So loading is deploying exactly if
the last account lists whatever the others list.
-/

namespace Interaction

namespace Chain

/-- Deploys the contracts of an account, one after another. -/
def deployAll (chain : Chain) (address : String) (contracts : Table (List UInt8)) : Chain :=
  contracts.entries.foldl (fun chain contract => chain.deploy address contract.1 contract.2) chain

theorem code?_deploy (chain : Chain) (address name : String) (code : List UInt8)
    (other wanted : String) : (chain.deploy address name code).code? other wanted =
      if Address.normalize address = Address.normalize other ∧ name = wanted then some code
      else chain.code? other wanted :=
  Table.get?_update_insert _ _ _ _ _ _

/-- The contracts of an account come before those that were there under any spelling. -/
theorem code?_deployAll (chain : Chain) (address : String) (contracts : Table (List UInt8))
    (other wanted : String) : (chain.deployAll address contracts).code? other wanted =
      if Address.normalize address = Address.normalize other then
        (contracts.get? wanted).or (chain.code? other wanted)
      else chain.code? other wanted := by
  obtain ⟨entries, sorted⟩ := contracts
  change (entries.foldl _ chain).code? other wanted =
    if _ then (Table.lookup? wanted entries).or _ else _
  induction entries generalizing chain with
  | nil => split <;> rfl
  | cons entry more ih =>
      rw [List.foldl_cons, ih _ (List.pairwise_cons.1 sorted).2, code?_deploy, Table.lookup?]
      by_cases haddress : Address.normalize address = Address.normalize other
      · by_cases hname : entry.1 = wanted
        · rw [← hname, Table.lookup?_tail sorted]
          simp [haddress]
        · simp [haddress, hname]
      · simp [haddress]

/-- Deploying changes nothing but the accounts. -/
theorem deployAll_eq (chain : Chain) (address : String) (contracts : Table (List UInt8)) :
    chain.deployAll address contracts =
      { chain with accounts := (chain.deployAll address contracts).accounts } := by
  rw [deployAll]
  generalize contracts.entries = entries
  induction entries generalizing chain with
  | nil => rfl
  | cons entry more ih => exact ih _

/-- Where no contract fails, only the code decides. -/
theorem fetch_of_failing (chain : Chain) (h : chain.failing = []) (address name : String) :
    chain.fetch address name =
      match chain.code? address name with
      | some code => .ok code
      | none => .error (.fetch name address chain.network .notDeployed) := by
  rw [fetch, h]
  rfl

namespace Snapshot

/-- The chain on which all contracts of a snapshot were deployed, account by account. -/
def deployed (snapshot : Snapshot) : Chain :=
  snapshot.accounts.entries.foldl
    (fun chain account => chain.deployAll account.1 (account.2.map Utf8.ofText))
    { network := snapshot.network, height := snapshot.height }

/-- What a snapshot lists under the spellings of an address, the last first. -/
def spellings (snapshot : Snapshot) (address : String) : List (Table String) :=
  (snapshot.accounts.entries.reverse.filter fun account =>
    Address.normalize account.1 = Address.normalize address).map Prod.snd

/-- Whether the last account at an address lists a contract if any does. -/
def Keeps (snapshot : Snapshot) (address name : String) : Prop :=
  ∀ contracts ∈ snapshot.spellings address, contracts.contains name = true →
    ∃ last ∈ (snapshot.spellings address).head?, last.contains name = true

variable (snapshot : Snapshot) (address name : String)

/-- Loading looks into the last account at an address. -/
theorem code?_toChain : snapshot.toChain.code? address name =
    ((snapshot.spellings address).head?.bind fun contracts => contracts.get? name).map
      Utf8.ofText := by
  have hlast : (snapshot.spellings address).head? = ((snapshot.accounts.entries.filter fun account =>
      Address.normalize account.1 = Address.normalize address).getLast?).map Prod.snd := by
    rw [spellings, List.head?_map, List.filter_reverse, List.head?_reverse]
  rw [toChain, ofSnapshot, code?, Table.get?_ofList, hlast, Table.map, List.map_map,
    List.filter_map, List.getLast?_map]
  dsimp only [Function.comp_def]
  cases (snapshot.accounts.entries.filter fun account =>
      Address.normalize account.1 = Address.normalize address).getLast? with
  | none => rfl
  | some account => exact Table.get?_map _ _ _

/-- Deploying goes through all accounts at an address, up to the last that lists the contract. -/
theorem code?_deployed : snapshot.deployed.code? address name =
    ((snapshot.spellings address).findSome? fun contracts => contracts.get? name).map
      Utf8.ofText := by
  rw [deployed, spellings]
  generalize snapshot.accounts.entries = accounts
  induction accounts using List.reverseRecOn with
  | nil => rfl
  | append_singleton done account ih =>
      rw [List.foldl_concat, code?_deployAll, ih, Table.get?_map, List.reverse_append,
        List.reverse_singleton, List.singleton_append, List.filter_cons]
      by_cases haddress : Address.normalize account.1 = Address.normalize address
      · rw [if_pos haddress, if_pos (decide_eq_true haddress), List.map_cons, List.findSome?_cons]
        cases account.2.get? name <;> rfl
      · rw [if_neg haddress, if_neg (by simpa using haddress)]

theorem deployed_eq :
    snapshot.deployed = { snapshot.toChain with accounts := snapshot.deployed.accounts } := by
  rw [deployed]
  generalize snapshot.accounts.entries = accounts
  induction accounts using List.reverseRecOn with
  | nil => rfl
  | append_singleton done account ih =>
      rw [List.foldl_concat, deployAll_eq, ih]

/-- Loading and deploying find the same code exactly if the last account has the contract or none
has it. -/
theorem code?_toChain_eq_iff :
    snapshot.toChain.code? address name = snapshot.deployed.code? address name ↔
      snapshot.Keeps address name := by
  rw [code?_toChain, code?_deployed, Keeps]
  cases hlisted : snapshot.spellings address with
  | nil => exact ⟨nofun, fun _ => rfl⟩
  | cons last others =>
      rw [List.head?_cons, Option.bind_some, List.findSome?_cons]
      cases hlast : last.get? name with
      | some code =>
          refine ⟨fun _ contracts _ _ => ⟨last, rfl, Table.contains_of_get? hlast⟩, fun _ => rfl⟩
      | none =>
          have hlost : last.contains name = false := by rw [Table.contains, hlast, Option.isSome_none]
          have hfound : Option.map Utf8.ofText (none : Option String) =
              (others.findSome? fun contracts => contracts.get? name).map Utf8.ofText ↔
                ∀ contracts ∈ others, contracts.contains name = false := by
            rw [Option.map_none, eq_comm, Option.map_eq_none_iff, List.findSome?_eq_none_iff]
            simp only [Table.contains, Option.isSome_eq_false_iff, Option.isNone_iff_eq_none]
          refine hfound.trans ⟨fun h contracts hmem hlists => ?_, fun h contracts hmem => ?_⟩
          · rcases List.mem_cons.1 hmem with rfl | hmem
            · exact ⟨contracts, rfl, hlists⟩
            · rw [h contracts hmem] at hlists
              cases hlists
          · by_contra hlists
            obtain ⟨kept, hkept, hlists⟩ := h contracts (.tail _ hmem) (eq_true_of_ne_false hlists)
            rw [← Option.some.inj hkept, hlost] at hlists
            cases hlists

theorem fetch_toChain_eq_iff :
    snapshot.toChain.fetch address name = snapshot.deployed.fetch address name ↔
      snapshot.toChain.code? address name = snapshot.deployed.code? address name := by
  have hloaded := fetch_of_failing snapshot.toChain rfl address name
  have hdeployed : snapshot.deployed.fetch address name =
      match snapshot.deployed.code? address name with
      | some code => .ok code
      | none => .error (.fetch name address snapshot.toChain.network .notDeployed) := by
    rw [deployed_eq]
    exact fetch_of_failing _ rfl address name
  rw [hloaded, hdeployed]
  cases snapshot.toChain.code? address name <;> cases snapshot.deployed.code? address name <;> simp

/-- What can be fetched of a loaded snapshot is what the last account at the address lists. -/
theorem exists_fetch_toChain_iff :
    (∃ code, snapshot.toChain.fetch address name = .ok code) ↔
      ∃ last ∈ (snapshot.spellings address).head?, last.contains name = true := by
  rw [fetch_of_failing snapshot.toChain rfl, code?_toChain]
  cases (snapshot.spellings address).head? with
  | none =>
      refine iff_of_false ?_ ?_
      · rintro ⟨code, hfetch⟩
        cases hfetch
      · rintro ⟨last, hlast, -⟩
        cases hlast
  | some last =>
      simp only [Option.bind_some, Option.mem_some_iff, exists_eq_left', Table.contains]
      cases last.get? name with
      | none =>
          refine iff_of_false ?_ Bool.false_ne_true
          rintro ⟨code, hfetch⟩
          cases hfetch
      | some code => exact ⟨fun _ => rfl, fun _ => ⟨_, rfl⟩⟩

/-- At every address, loading a snapshot comes to the same as deploying what it lists exactly if the
last account there lists the contract or none does, and a contract that some account there lists
can be fetched in no other case. -/
theorem fetch_toChain_eq_fetch_deployed_iff :
    (snapshot.toChain.fetch address name = snapshot.deployed.fetch address name ↔
      snapshot.Keeps address name) ∧
    ∀ contracts ∈ snapshot.spellings address, contracts.contains name = true →
      ((∃ code, snapshot.toChain.fetch address name = .ok code) ↔ snapshot.Keeps address name) := by
  refine ⟨(snapshot.fetch_toChain_eq_iff address name).trans
    (snapshot.code?_toChain_eq_iff address name), ?_⟩
  intro contracts hmem hlists
  rw [exists_fetch_toChain_iff]
  exact ⟨fun hlast _ _ _ => hlast, fun h => h contracts hmem hlists⟩

/-- A snapshot with two spellings of one address. -/
def twoSpellings : String :=
  "network: testnet\nheight: 1\naccounts:\n  \"0x01\":\n    A: a\n  \"0x1\":\n    B: b\n"

set_option maxRecDepth 1000 in
/-- Of two spellings of an address the contracts of the first are lost. -/
theorem fetch_toChain_twoSpellings : ∃ snapshot, parse? twoSpellings = some snapshot ∧
    snapshot.accounts.get? "0x01" = some (Table.ofList [("A", "a")]) ∧
    snapshot.deployed.fetch "0x01" "A" = .ok (Utf8.ofText "a") ∧
    snapshot.toChain.fetch "0x01" "A" = .error (.fetch "A" "0x01" "testnet" .notDeployed) := by
  have hparse : parse? twoSpellings = some ⟨"testnet", 1, Table.ofList
      [("0x01", Table.ofList [("A", "a")]), ("0x1", Table.ofList [("B", "b")])]⟩ := by cbv
  refine ⟨_, hparse, ?_, ?_, ?_⟩
  · cbv
  · cbv
  · cbv

end Snapshot

end Chain

end Interaction
