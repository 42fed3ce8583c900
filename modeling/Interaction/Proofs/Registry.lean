import Interaction.Proofs.Address
import Interaction.Proofs.Table
import Interaction.Registry.Resolution

/-!
# Registries and the addresses they hold

A registry is built from the empty or the core one by changes. However it was built, every address
it holds is normalised, so where a contract is resolved to is a normalised address, and a
hexadecimal one if the registry and the import name only such. And every pin it holds has its tree.
-/

namespace Interaction

/-- Whether the record has its tree, whose pin it repeats. -/
def PinRecord.HasTree (record : PinRecord) : Prop :=
  ∃ height tree, record = ofTree height tree

namespace Registry

/-- The registries that can be built. -/
inductive Built : Registry → Prop
  | empty : Built empty
  | core : Built core
  | coreWith (addresses : Addresses) : Built (coreWith addresses)
  | apply {registry : Registry} (h : Built registry) (change : Change) :
      Built (registry.apply change)

/-- Every address a registry holds is normalised. -/
def IsNormal (registry : Registry) : Prop :=
  ∀ name network found, registry.entry? name network = some found →
    Address.normalize found.address = found.address

/-- Every address a registry holds for a network is hexadecimal. -/
def IsHexOn (registry : Registry) (network : String) : Prop :=
  ∀ name found, registry.entry? name network = some found → Address.isHex found.address = true

theorem entry?_eq_some_iff {registry : Registry} {name network : String} {found : Registration} :
    registry.entry? name network = some found ↔
      ∃ known, registry.deployments? name = some known ∧ known.get? network = some found :=
  Option.bind_eq_some_iff

theorem entry?_eq_none {registry : Registry} {name : String} (h : registry.deployments? name = none)
    (network : String) : registry.entry? name network = none :=
  Option.bind_eq_none_iff.2 fun _ hknown => nomatch h.symm.trans hknown

theorem isHexOn_of_entries {registry : Registry} (h : ∀ networks ∈ registry.contracts.entries,
    ∀ placed ∈ networks.2.entries, Address.isHex placed.2.address = true) (network : String) :
    registry.IsHexOn network := by
  intro name found hfound
  obtain ⟨networks, hnetworks, hget⟩ := entry?_eq_some_iff.1 hfound
  exact h (name, networks) (Table.get?_eq_some_iff.1 hnetworks) (network, found)
    (Table.get?_eq_some_iff.1 hget)

theorem entry?_set (registry : Registry) (name network : String) (registration : Registration)
    (other on : String) :
    Registry.entry? (registry.set name network registration) other on =
      if name = other ∧ network = on then some registration else registry.entry? other on :=
  Table.get?_update_insert registry.contracts name network registration other on

section

variable {registry : Registry} {P : Registration → Prop}

/-- Whether all that a registry holds is such. -/
def Holds (registry : Registry) (P : Registration → Prop) : Prop :=
  ∀ name network found, registry.entry? name network = some found → P found

theorem holds_empty : Holds empty P :=
  fun _ _ _ h => nomatch h

theorem Holds.set (h : registry.Holds P) {name network : String} {registration : Registration}
    (hnew : P registration) : (registry.set name network registration).Holds P := by
  intro other on found hfound
  rw [entry?_set] at hfound
  split at hfound
  · cases hfound
    exact hnew
  · exact h other on found hfound

/-- One step of overriding: a contract is placed anew on all its networks. -/
theorem Holds.insert (h : registry.Holds P) (hunpinned : ∀ address, P (.unpinned address))
    (name : String) (addresses : Table String) :
    Holds ⟨registry.contracts.insert name (addresses.map Registration.unpinned)⟩ P := by
  intro other on found hfound
  simp only [deployments?, entry?, Table.get?_insert] at hfound
  split at hfound
  · rw [Option.bind_some, Table.get?_map] at hfound
    obtain ⟨address, -, rfl⟩ := Option.map_eq_some_iff.1 hfound
    exact hunpinned address
  · exact h other on found hfound

theorem Holds.override (h : registry.Holds P) (hunpinned : ∀ address, P (.unpinned address))
    (addresses : Addresses) : (registry.override addresses).Holds P := by
  obtain ⟨entries, sorted⟩ := addresses
  simp only [Registry.override]
  clear sorted
  induction entries generalizing registry with
  | nil => exact h
  | cons entry more ih => exact ih (h.insert hunpinned entry.1 entry.2)

/-- What holds of the registrations that changes bring holds of all in a registry that was
built. -/
theorem Built.holds (hunpinned : ∀ address, P (.unpinned address))
    (hpin : ∀ address height tree, P ⟨Address.normalize address, some (.ofTree height tree)⟩)
    (h : registry.Built) : registry.Holds P := by
  induction h with
  | empty => exact holds_empty
  | core => exact holds_empty.override hunpinned _
  | coreWith addresses => exact (holds_empty.override hunpinned _).override hunpinned addresses
  | apply _ change ih =>
      cases change with
      | override addresses => exact ih.override hunpinned addresses
      | place name network address => exact ih.set (hunpinned address)
      | pin name network address height tree => exact ih.set (hpin address height tree)

end

/-- Every address of a registry that was built is normalised. -/
theorem Built.isNormal {registry : Registry} (h : registry.Built) : registry.IsNormal :=
  h.holds (fun address => Address.normalize_normalize address)
    fun address _ _ => Address.normalize_normalize address

/-- Every pin of a registry that was built has its tree. -/
theorem Built.hasTrees {registry : Registry} (h : registry.Built) :
    registry.Holds fun found => ∀ record ∈ found.pin, record.HasTree :=
  h.holds (fun _ => nofun) fun _ height tree _ hrecord =>
    ⟨height, tree, (Option.mem_some_iff.1 hrecord).symm⟩

/-- A bare import leads to the address the registry holds. -/
theorem resolveBare_eq_ok {registry : Registry} {name network : String} {found : Resolved}
    (h : registry.resolveBare name network = .ok found) :
    ∃ known, registry.entry? name network = some known ∧ found.contract = name ∧
      found.address = known.address := by
  unfold resolveBare at h
  split at h
  next => cases h
  next networks hnetworks =>
    split at h
    next => cases h
    next known hknown =>
      cases h
      exact ⟨known, entry?_eq_some_iff.2 ⟨networks, hnetworks, hknown⟩, rfl, rfl⟩

/-- An import leads to the address the registry holds, or to the one that it spells out. -/
theorem resolve_eq_ok {registry : Registry} {i : Import} {network : String} {found : Resolved}
    (h : registry.resolve i network = .ok found) :
    found.contract = i.name ∧
      ((∃ known, registry.entry? i.name network = some known ∧ found.address = known.address) ∨
        ∃ address, i.address = some address ∧ found.address = Address.normalize address) := by
  unfold resolve at h
  split at h
  next =>
    obtain ⟨known, hknown, hcontract, haddress⟩ := resolveBare_eq_ok h
    exact ⟨hcontract, .inl ⟨known, hknown, haddress⟩⟩
  next address haddress =>
    cases h
    exact ⟨rfl, .inr ⟨address, haddress, rfl⟩⟩

theorem normalize_of_resolve {registry : Registry} (hnormal : registry.IsNormal) {i : Import}
    {network : String} {found : Resolved} (h : registry.resolve i network = .ok found) :
    Address.normalize found.address = found.address := by
  obtain ⟨-, ⟨known, hknown, haddress⟩ | ⟨address, -, haddress⟩⟩ := resolve_eq_ok h
  · rw [haddress]
    exact hnormal i.name network known hknown
  · rw [haddress, Address.normalize_normalize]

theorem isHex_of_resolve {registry : Registry} {network : String}
    (hhex : registry.IsHexOn network) {i : Import}
    (himport : ∀ address, i.address = some address → Address.isHex address = true)
    {found : Resolved} (h : registry.resolve i network = .ok found) :
    Address.isHex found.address = true := by
  obtain ⟨-, ⟨known, hknown, haddress⟩ | ⟨address, hi, haddress⟩⟩ := resolve_eq_ok h
  · rw [haddress]
    exact hhex i.name known hknown
  · rw [haddress]
    exact Address.isHex_normalize (himport address hi)

theorem entry?_of_deployments? {registry : Registry} {name network : String}
    {known : Table Registration} {found : Registration}
    (hknown : registry.deployments? name = some known) (h : (network, found) ∈ known.entries) :
    registry.entry? name network = some found :=
  entry?_eq_some_iff.2 ⟨known, hknown, Table.get?_eq_some_iff.2 h⟩

section ResolveAll

variable {registry : Registry} {i : Import} {networks : List String} {places : List Resolved}

/-- A contract that the registry knows is placed where the registry has it. -/
theorem resolveAll_of_known {known : Table Registration}
    (h : registry.deployments? i.name = some known) (networks : List String) :
    registry.resolveAll i networks =
      .ok (known.entries.map fun placed => ⟨i.name, placed.1, placed.2.address, placed.2.pin⟩) := by
  rw [resolveAll, h]
  dsimp only
  rw [mapM_eq_ok_iff, Table.names, List.forall₂_map_left_iff, List.forall₂_map_right_iff,
    List.forall₂_same]
  intro placed hplaced
  rw [resolveBare, h]
  simp only [Table.get?_eq_some_iff.2 hplaced]

/-- A contract that the registry does not know is placed on each of the given networks, at the
address that its import spells out. -/
theorem resolveAll_of_unknown {address : String} (h : registry.deployments? i.name = none)
    (haddress : i.address = some address) (networks : List String) :
    registry.resolveAll i networks =
      .ok (networks.map fun network => ⟨i.name, network, Address.normalize address, none⟩) := by
  have hexplicit : i.isExplicit = true := by rw [Import.isExplicit, haddress, Option.isSome_some]
  rw [resolveAll, h]
  dsimp only
  rw [if_pos hexplicit]
  refine mapM_eq_ok_map ?_
  intro network _
  simp [resolve, haddress, resolveExplicit, entry?, h]

/-- A contract that the registry does not know and whose import spells out no address is not
placed. -/
theorem resolveAll_of_bare (h : registry.deployments? i.name = none) (haddress : i.address = none)
    (networks : List String) : registry.resolveAll i networks =
      .error (.unresolved i.name (",".intercalate networks)) := by
  have hbare : ¬ i.isExplicit = true := by rw [Import.isExplicit, haddress]; nofun
  rw [resolveAll, h]
  dsimp only
  rw [if_neg hbare]

/-- An import that is placed on all networks at once stands where the registry has the contract or,
if the registry does not know it, on each of the given networks at the address that it spells
out. -/
theorem resolveAll_eq_ok (h : registry.resolveAll i networks = .ok places) :
    (∃ known, registry.deployments? i.name = some known ∧
      places = known.entries.map fun placed =>
        ⟨i.name, placed.1, placed.2.address, placed.2.pin⟩) ∨
    registry.deployments? i.name = none ∧ ∃ address, i.address = some address ∧
      places = networks.map fun network => ⟨i.name, network, Address.normalize address, none⟩ := by
  cases hknown : registry.deployments? i.name with
  | some known =>
      rw [resolveAll_of_known hknown] at h
      exact .inl ⟨known, rfl, (Except.ok.inj h).symm⟩
  | none =>
      cases haddress : i.address with
      | none =>
          rw [resolveAll_of_bare hknown haddress] at h
          cases h
      | some address =>
          rw [resolveAll_of_unknown hknown haddress] at h
          exact .inr ⟨rfl, address, rfl, (Except.ok.inj h).symm⟩

end ResolveAll

end Registry

end Interaction
