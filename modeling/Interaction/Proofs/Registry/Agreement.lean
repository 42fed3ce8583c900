import Interaction.Proofs.Registry

/-!
# The ways of resolving an import agree

An import is resolved on one network or on all at once, with an address or without. For a contract
that the registry knows the ways lead to the same deployments. Where the import spells out the
registry's own address, in whatever spelling, it gets what the bare import gets, and so the pin.
Any other address is kept and gets no pin, so a pin never stands for a deployment it was not
computed for. On all networks at once the contract is placed as the bare import is on each network
of the registry, whatever address is spelled out and whatever networks are asked for.
-/

namespace Interaction

namespace Registry

variable {registry : Registry} {name network address : String} {found : Registration}

/-! ### One network -/

theorem resolve_bare_of_entry? (h : registry.entry? name network = some found) :
    registry.resolve ⟨name, none⟩ network = .ok ⟨name, network, found.address, found.pin⟩ := by
  obtain ⟨known, hknown, hfound⟩ := entry?_eq_some_iff.1 h
  simp only [resolve, resolveBare, hknown, hfound]

/-- The registry's own address brings the registry's pin. -/
theorem resolveExplicit_of_eq (h : registry.entry? name network = some found)
    (haddress : Address.normalize address = found.address) :
    registry.resolveExplicit name address network =
      ⟨name, network, found.address, found.pin⟩ := by
  simp [resolveExplicit, h, haddress, Option.filter_some]

/-- Any other address brings none. -/
theorem resolveExplicit_of_ne
    (h : (registry.entry? name network).map Registration.address ≠
      some (Address.normalize address)) :
    registry.resolveExplicit name address network =
      ⟨name, network, Address.normalize address, none⟩ := by
  have hnone : ((registry.entry? name network).filter fun known =>
      known.address == Address.normalize address) = none := by
    rw [Option.filter_eq_none_iff]
    intro known hknown heq
    exact h (by rw [hknown, Option.map_some, eq_of_beq heq])
  rw [resolveExplicit, hnone, Option.bind_none]

/-! ### All networks -/

/-- The deployments that a registry has of a contract, in order. -/
def placesOf (name : String) (known : Table Registration) : List Resolved :=
  known.entries.map fun placed => ⟨name, placed.1, placed.2.address, placed.2.pin⟩

variable {known : Table Registration}

theorem map_network_placesOf (name : String) (known : Table Registration) :
    (placesOf name known).map Resolved.network = known.names :=
  List.map_map

theorem resolve_of_mem_placesOf (h : registry.deployments? name = some known) {place : Resolved}
    (hplace : place ∈ placesOf name known) :
    registry.resolve ⟨name, none⟩ place.network = .ok place := by
  obtain ⟨placed, hplaced, rfl⟩ := List.mem_map.1 hplace
  exact resolve_bare_of_entry? (entry?_of_deployments? h hplaced)

theorem mem_networks_placesOf_iff (h : registry.deployments? name = some known)
    (network : String) : network ∈ (placesOf name known).map Resolved.network ↔
      (registry.entry? name network).isSome = true := by
  rw [map_network_placesOf, ← Table.contains_iff_mem_names, Table.contains, entry?, h,
    Option.bind_some]

/-! ### All ways -/

/-- How the ways of resolving an import of a contract agree. -/
structure ResolvesAlike (registry : Registry) (name : String) : Prop where
  /-- The registry's address in any spelling resolves as no address does, with the pin. -/
  here : ∀ network found address, registry.entry? name network = some found →
    Address.normalize address = found.address →
    registry.resolve ⟨name, some address⟩ network = registry.resolve ⟨name, none⟩ network ∧
      registry.resolve ⟨name, none⟩ network = .ok ⟨name, network, found.address, found.pin⟩
  /-- In particular its own spelling does. -/
  own : ∀ network found, registry.entry? name network = some found →
    registry.resolve ⟨name, some found.address⟩ network = registry.resolve ⟨name, none⟩ network
  /-- Any other address, or any on another network, is kept without a pin. -/
  elsewhere : ∀ network address,
    (registry.entry? name network).map Registration.address ≠ some (Address.normalize address) →
    registry.resolve ⟨name, some address⟩ network =
      .ok ⟨name, network, Address.normalize address, none⟩
  /-- On all networks at once neither the address nor the networks asked for count. -/
  everywhere : ∃ places : List Resolved,
    (∀ address? networks, registry.resolveAll ⟨name, address?⟩ networks = .ok places) ∧
      (places.map Resolved.network).Pairwise (· < ·) ∧
      (∀ network, network ∈ places.map Resolved.network ↔
        (registry.entry? name network).isSome = true) ∧
      ∀ place ∈ places, registry.resolve ⟨name, none⟩ place.network = .ok place

/-- The ways of resolving an import of a contract agree if the registry was built and knows it. -/
theorem Built.resolvesAlike (h : registry.Built) (hknown : registry.contains name = true) :
    registry.ResolvesAlike name := by
  obtain ⟨known, hknown : registry.deployments? name = some known⟩ :=
    Option.isSome_iff_exists.1 hknown
  have hhere (network : String) (found : Registration) (address : String)
      (hfound : registry.entry? name network = some found)
      (haddress : Address.normalize address = found.address) :
      registry.resolve ⟨name, some address⟩ network =
          registry.resolve ⟨name, none⟩ network ∧
        registry.resolve ⟨name, none⟩ network = .ok ⟨name, network, found.address, found.pin⟩ := by
    have hbare := resolve_bare_of_entry? hfound
    refine ⟨?_, hbare⟩
    rw [hbare, resolve]
    exact congrArg Except.ok (resolveExplicit_of_eq hfound haddress)
  refine ⟨hhere, ?own, ?elsewhere, placesOf name known, ?everywhere⟩
  case own =>
    intro network found hfound
    exact (hhere network found found.address hfound (h.isNormal name network found hfound)).1
  case elsewhere =>
    intro network address hne
    exact congrArg Except.ok (resolveExplicit_of_ne hne)
  case everywhere =>
    refine ⟨fun _ networks => resolveAll_of_known hknown networks, ?_,
      mem_networks_placesOf_iff hknown, fun place => resolve_of_mem_placesOf hknown⟩
    rw [map_network_placesOf]
    exact known.pairwise_names

/-- The core contracts and one contract with its pin. -/
def coreWithGreeter : Registry :=
  core.apply (.pin "HelloWorld" "testnet" "0xE15193734357CF5C" 7
    ⟨"pin", "self", "HelloWorld", "0xe15193734357cf5c", []⟩)

/-- So they do in the core registry with one more contract, which is pinned on one network. -/
theorem resolvesAlike_coreWithGreeter :
    coreWithGreeter.Built ∧ coreWithGreeter.contains "HelloWorld" = true ∧
      coreWithGreeter.ResolvesAlike "HelloWorld" := by
  have hbuilt : coreWithGreeter.Built := Built.core.apply _
  have hknown : coreWithGreeter.contains "HelloWorld" = true := by decide +kernel
  exact ⟨hbuilt, hknown, hbuilt.resolvesAlike hknown⟩

end Registry

end Interaction
