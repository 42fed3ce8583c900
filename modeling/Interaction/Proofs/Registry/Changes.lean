import Interaction.Proofs.Registry

/-!
# The latest change counts

A registry that starts empty or with the core contracts holds of each contract on each network what
was decided by the latest change that decides anything about it. Overrides of a contract decide
about all networks, so also where it is no longer placed; the other changes decide about one
network. Which contracts are known follows from the changes alone, and they are listed in order.
The list of the addresses makes the registry again, without its pins.
-/

namespace Interaction

namespace Registry

/-- What a registry starts from. -/
inductive Origin where
  | empty
  | core
  deriving DecidableEq, Repr

namespace Origin

def registry : Origin → Registry
  | empty => .empty
  | core => .core

def names : Origin → List String
  | empty => []
  | core => coreAddresses.map Prod.fst

def entry? (name network : String) : Origin → Option Registration
  | empty => none
  | core => ((Table.lookup? name coreAddresses).bind (Table.lookup? network)).map .unpinned

end Origin

namespace Change

/-- Whether a change speaks of a contract at all. -/
def mentions (name : String) : Change → Bool
  | override addresses => addresses.contains name
  | place other _ _ => other == name
  | pin other _ _ _ _ => other == name

/-- What a change decides about a contract on a network: nothing, or what is held from then on. -/
def decides? (name network : String) : Change → Option (Option Registration)
  | override addresses =>
    (addresses.get? name).map fun networks => (networks.get? network).map .unpinned
  | place other on address =>
    if other = name ∧ on = network then some (some (.unpinned address)) else none
  | pin other on address height tree =>
    if other = name ∧ on = network then
      some (some ⟨Address.normalize address, some (.ofTree height tree)⟩)
    else none

end Change

/-- What the latest of some changes decides that decides anything about a contract on a network. -/
def latest? (name network : String) (changes : List Change) : Option (Option Registration) :=
  changes.reverse.findSome? (Change.decides? name network)

/-- The registry without its pins. -/
def unpinned (registry : Registry) : Registry :=
  ⟨registry.contracts.map fun networks => networks.map fun found => { found with pin := none }⟩

/-- What a registry holds after some changes of its origin. -/
structure Follows (origin : Origin) (changes : List Change) (registry : Registry) : Prop where
  entry : ∀ name network,
    registry.entry? name network = (latest? name network changes).getD (origin.entry? name network)
  contains : ∀ name, registry.contains name = true ↔
    name ∈ origin.names ∨ ∃ change ∈ changes, change.mentions name = true
  /-- The contracts are listed in order, each once. -/
  ordered : registry.names.Pairwise (· < ·)
  listed : ∀ name, name ∈ registry.names ↔ registry.contains name = true
  size : registry.size = registry.names.length
  /-- The addresses are those of the entries. -/
  names_addresses : registry.addresses.names = registry.names
  addresses : ∀ name network, ((registry.addresses.get? name).bind fun on => on.get? network) =
    (registry.entry? name network).map Registration.address
  normal : registry.IsNormal
  /-- The addresses make the registry again, without its pins. -/
  rebuilt : empty.override registry.addresses = registry.unpinned

variable {registry : Registry} {origin : Origin} {changes : List Change}

/-! ### One change -/

theorem override_eq (registry : Registry) (addresses : Addresses) :
    registry.override addresses =
      ⟨(addresses.map fun networks => networks.map Registration.unpinned).entries.foldl
        (fun known entry => known.insert entry.1 entry.2) registry.contracts⟩ := by
  rw [Registry.override, Table.map, List.foldl_map]

theorem deployments?_override (registry : Registry) (addresses : Addresses) (name : String) :
    (registry.override addresses).deployments? name =
      ((addresses.get? name).map fun networks => networks.map Registration.unpinned).or
        (registry.deployments? name) := by
  rw [override_eq, deployments?, Table.get?_foldl_insert, Table.get?_map, deployments?]

/-- What is held after a change is what it decides, or what was held before. -/
theorem entry?_apply (registry : Registry) (change : Change) (name network : String) :
    Registry.entry? (registry.apply change) name network =
      (change.decides? name network).getD (registry.entry? name network) := by
  cases change with
  | override addresses =>
      rw [apply, Registry.entry?, deployments?_override, Change.decides?]
      cases addresses.get? name with
      | none => rfl
      | some networks => exact Table.get?_map _ _ _
  | place other on address =>
      rw [apply, entry?_set, Change.decides?]
      split <;> rfl
  | pin other on address height tree =>
      rw [apply, entry?_set, Change.decides?]
      split <;> rfl

theorem contains_set (registry : Registry) (other network : String) (registration : Registration)
    (name : String) : (registry.set other network registration).contains name =
      (other == name || registry.contains name) := by
  rw [contains, contains, set, Table.update, Table.contains, Table.get?_insert, Table.contains]
  by_cases hname : other = name
  · simp [hname]
  · simp [hname]

/-- The contracts that are known after a change are those it speaks of and those known before. -/
theorem contains_apply (registry : Registry) (change : Change) (name : String) :
    (registry.apply change).contains name = (change.mentions name || registry.contains name) := by
  cases change with
  | override addresses =>
      change ((registry.override addresses).deployments? name).isSome = _
      rw [deployments?_override, Option.isSome_or, Option.isSome_map]
      rfl
  | place other on address => exact contains_set registry other on _ name
  | pin other on address height tree => exact contains_set registry other on _ name

/-! ### Many changes -/

theorem entry?_foldl_apply (registry : Registry) (changes : List Change) (name network : String) :
    Registry.entry? (changes.foldl apply registry) name network =
      (latest? name network changes).getD (registry.entry? name network) :=
  view_foldl (fun known => Registry.entry? known name network)
    (fun known change => entry?_apply known change name network) changes registry

theorem contains_foldl_apply (registry : Registry) (changes : List Change) (name : String) :
    (changes.foldl apply registry).contains name = true ↔
      registry.contains name = true ∨ ∃ change ∈ changes, change.mentions name = true := by
  induction changes using List.reverseRecOn with
  | nil => simp
  | append_singleton done change ih =>
      rw [List.foldl_concat, contains_apply, Bool.or_eq_true, ih]
      simp only [List.mem_append, List.mem_singleton]
      grind

theorem built_foldl_apply (h : registry.Built) (changes : List Change) :
    (changes.foldl apply registry).Built := by
  induction changes generalizing registry with
  | nil => exact h
  | cons change more ih => exact ih (h.apply change)

/-! ### The origins -/

theorem Origin.built (origin : Origin) : origin.registry.Built := by
  cases origin with
  | empty => exact .empty
  | core => exact .core

theorem entry?_empty (name network : String) : Registry.entry? empty name network = none :=
  rfl

/-- The core registry holds what its table of addresses lists. -/
theorem entry?_core (name network : String) :
    Registry.entry? core name network = Origin.core.entry? name network := by
  have hnames : ((coreAddresses.map fun entry => (entry.1, Table.ofList entry.2)).map
      Prod.fst).Nodup := by decide
  have hnetworks : ∀ entry ∈ coreAddresses, (entry.2.map Prod.fst).Nodup := by decide
  change Registry.entry? (empty.apply (.override _)) name network = _
  rw [entry?_apply, entry?_empty, Change.decides?, Table.get?_ofList_of_nodup hnames,
    Table.lookup?_map, Origin.entry?]
  cases hknown : Table.lookup? name coreAddresses with
  | none => rfl
  | some networks =>
      change ((Table.ofList networks).get? network).map _ = (Table.lookup? network networks).map _
      rw [Table.get?_ofList_of_nodup (hnetworks _ (Table.mem_of_lookup? hknown))]

theorem Origin.entry?_registry (origin : Origin) (name network : String) :
    Registry.entry? origin.registry name network = origin.entry? name network := by
  cases origin with
  | empty => rfl
  | core => exact entry?_core name network

theorem Origin.contains_registry (origin : Origin) (name : String) :
    origin.registry.contains name = true ↔ name ∈ origin.names := by
  cases origin with
  | empty => exact ⟨nofun, nofun⟩
  | core =>
      change (Registry.empty.apply (.override _)).contains name = true ↔ _
      rw [contains_apply, Change.mentions, Bool.or_eq_true, Table.contains_ofList, List.map_map]
      exact or_iff_left nofun

/-! ### The list of addresses -/

theorem addresses_entry (registry : Registry) (name network : String) :
    ((registry.addresses.get? name).bind fun on => on.get? network) =
      (registry.entry? name network).map Registration.address := by
  rw [addresses, Table.get?_map, Registry.entry?, deployments?]
  cases registry.contracts.get? name with
  | none => rfl
  | some networks => exact Table.get?_map _ _ _

/-- Overriding an empty registry gives one that holds the addresses and nothing else. -/
theorem override_empty (addresses : Addresses) : empty.override addresses =
    ⟨addresses.map fun networks => networks.map Registration.unpinned⟩ := by
  rw [override_eq]
  exact congrArg Registry.mk (Table.ofList_entries _)

/-- What has a normalised address is held again without its pin. -/
theorem unpinned_address {found : Registration}
    (h : Address.normalize found.address = found.address) :
    Registration.unpinned found.address = { found with pin := none } := by
  rw [Registration.unpinned, h]

theorem override_addresses (h : registry.IsNormal) :
    empty.override registry.addresses = registry.unpinned := by
  rw [override_empty, addresses, Table.map_map, unpinned]
  congr 1
  refine Table.map_congr fun networks hnetworks => ?_
  change (networks.2.map Registration.address).map Registration.unpinned = _
  rw [Table.map_map]
  refine Table.map_congr fun placed hplaced => unpinned_address ?_
  exact h networks.1 placed.1 placed.2
    (entry?_of_deployments? (Table.get?_eq_some_iff.2 hnetworks) hplaced)

/-- However a registry came about from its origin, of the changes that decide about a contract the
latest counts. -/
theorem follows_foldl_apply (origin : Origin) (changes : List Change) :
    Follows origin changes (changes.foldl apply origin.registry) where
  entry name network := by rw [entry?_foldl_apply, origin.entry?_registry]
  contains name := by rw [contains_foldl_apply, origin.contains_registry]
  ordered := Table.pairwise_names _
  listed _ := Table.contains_iff_mem_names.symm
  size := (List.length_map _).symm
  names_addresses := Table.names_map _ _
  addresses := addresses_entry _
  normal := (built_foldl_apply origin.built changes).isNormal
  rebuilt := override_addresses (built_foldl_apply origin.built changes).isNormal

end Registry

end Interaction
