import Interaction.Proofs.Registry
import Interaction.Proofs.Template.NetworkPins
import Interaction.Proofs.Template.Executable

/-!
# Where documents place contracts

A listed document keeps the dependencies of its draft as they are, in their order and with the
pins that have their trees. A keyed document keeps one dependency of each name and one placement of
each network, in orders of its own. So both place the contracts of a draft where the draft does, if
in the draft the addresses are a matter of the names and the networks.
-/

namespace Interaction

namespace Dependency

/-- The address of a contract on a network. -/
def addressOn? (d : Dependency) (network : String) : Option String :=
  (d.on? network).map Placement.address

/-- Whether all placements on one network have one address. -/
def IsDefinite (d : Dependency) : Prop :=
  ∀ p ∈ d.placements, ∀ q ∈ d.placements, p.network = q.network → p.address = q.address

/-- Dependencies with the given names, each with the addresses that are given for its name. -/
structure PlacedAt (names : List String) (address : String → String → Option String)
    (dependencies : List Dependency) : Prop where
  named : ∀ name, name ∈ dependencies.map contract ↔ name ∈ names
  address : ∀ d ∈ dependencies, ∀ network, d.addressOn? network = address d.contract network

variable {names : List String} {address : String → String → Option String}
  {dependencies : List Dependency} {d : Dependency} {p : Placement} {network name : String}

theorem IsDefinite.addressOn? (h : d.IsDefinite) (hp : p ∈ d.placements) :
    d.addressOn? p.network = some p.address := by
  cases hfound : d.on? p.network with
  | none => exact absurd (List.find?_eq_none.1 hfound p hp) (by simp)
  | some q =>
      have hnetwork : q.network = p.network := by
        simpa using List.find?_some hfound
      rw [Dependency.addressOn?, hfound, Option.map_some,
        h q (List.mem_of_find?_eq_some hfound) p hp hnetwork]

theorem addressOn?_eq_none (h : ∀ p ∈ d.placements, p.network ≠ network) :
    d.addressOn? network = none := by
  have hnone : d.on? network = none := by
    refine List.find?_eq_none.2 fun p hp => ?_
    simpa using h p hp
  rw [addressOn?, hnone, Option.map_none]

namespace PlacedAt

variable (h : PlacedAt names address dependencies)

include h

/-- All dependencies of a name have the address that is given for it, so also the last of them. -/
theorem addressIn? (hname : name ∈ names) :
    addressIn? dependencies network name = address name network := by
  obtain ⟨d, hd, hcontract⟩ := List.mem_map.1 ((h.named name).2 hname)
  cases hfound : dependencies.findRev? fun d => d.contract == name with
  | none =>
      rw [List.findRev?_eq_find?_reverse, List.find?_eq_none] at hfound
      exact absurd (hfound d (List.mem_reverse.2 hd)) (by simpa using hcontract)
  | some last =>
      rw [Dependency.addressIn?, hfound, Option.bind_some]
      rw [List.findRev?_eq_find?_reverse] at hfound
      have hlast : last ∈ dependencies := List.mem_reverse.1 (List.mem_of_find?_eq_some hfound)
      have hnamed : last.contract = name := by
        simpa using List.find?_some hfound
      rw [← hnamed]
      exact h.address last hlast network

theorem isSome_on?_iff : (∀ d ∈ dependencies, (d.on? network).isSome = true) ↔
    ∀ name ∈ names, (address name network).isSome = true := by
  have hon : ∀ d ∈ dependencies,
      (d.on? network).isSome = (address d.contract network).isSome := by
    intro d hd
    rw [← h.address d hd network, addressOn?, Option.isSome_map]
  constructor
  · intro hplaced name hname
    obtain ⟨d, hd, rfl⟩ := List.mem_map.1 ((h.named name).2 hname)
    rw [← hon d hd]
    exact hplaced d hd
  · intro hknown d hd
    rw [hon d hd]
    exact hknown d.contract ((h.named d.contract).1 (List.mem_map_of_mem hd))

end PlacedAt

end Dependency

/-- Whether a placement stands where another does and has no pin but at the height of its pin. -/
structure Placement.KeptFrom (p q : Placement) : Prop where
  network : p.network = q.network
  address : p.address = q.address
  height : ∀ record ∈ p.pin, ∃ old ∈ q.pin, record.height = old.height

/-- Whether all placements of a dependency are kept from another one of the same contract. -/
structure Dependency.KeptFrom (d e : Dependency) : Prop where
  contract : d.contract = e.contract
  placements : ∀ p ∈ d.placements, ∃ q ∈ e.placements, p.KeptFrom q

namespace Listed

theorem Deployment.toPlacement_ofPlacement {placement : Placement}
    (h : ∀ record ∈ placement.pin, record.HasTree) :
    (ofPlacement placement).toPlacement = placement := by
  obtain ⟨network, address, _ | record⟩ := placement
  · rfl
  · obtain ⟨height, tree, rfl⟩ := h record rfl
    rfl

/-- A dependency as it is read from a document that it was stored in. -/
def stored (d : Dependency) : Dependency :=
  ⟨d.contract, (d.placements.map Deployment.ofPlacement).map Deployment.toPlacement⟩

theorem dependencies_ofDraft_eq_map (draft : Draft) :
    (Document.ofDraft draft).dependencies = draft.dependencies.map stored := by
  simp [Document.ofDraft, Document.dependencies, stored, ← List.flatMap_def,
    ← List.map_eq_flatMap]

theorem dependencies_ofDraft {draft : Draft}
    (h : ∀ d ∈ draft.dependencies, ∀ p ∈ d.placements, ∀ record ∈ p.pin, record.HasTree) :
    (Document.ofDraft draft).dependencies = draft.dependencies := by
  have hkeeps : ∀ d ∈ draft.dependencies, stored d = d := by
    intro d hd
    have hplacements : d.placements.map (Deployment.toPlacement ∘ Deployment.ofPlacement) =
        d.placements.map id :=
      List.map_congr_left fun p hp => Deployment.toPlacement_ofPlacement (h d hd p hp)
    rw [stored, List.map_map, hplacements, List.map_id]
  rw [dependencies_ofDraft_eq_map, List.map_congr_left hkeeps, List.map_id']

theorem Deployment.ofPlacement_place (placement : Placement) :
    (ofPlacement placement).network = placement.network ∧
      (ofPlacement placement).address = placement.address := by
  rw [ofPlacement.eq_def]
  split <;> exact ⟨rfl, rfl⟩

theorem Deployment.keptFrom (placement : Placement) :
    (ofPlacement placement).toPlacement.KeptFrom placement where
  network := (ofPlacement_place placement).1
  address := (ofPlacement_place placement).2
  height := by
    obtain ⟨network, address, _ | ⟨height, pin, _ | tree⟩⟩ := placement
    · nofun
    · nofun
    · rintro _ ⟨⟩
      exact ⟨_, rfl, rfl⟩

theorem exists_keptFrom {draft : Draft} {d : Dependency}
    (hd : d ∈ (Document.ofDraft draft).dependencies) : ∃ e ∈ draft.dependencies, d.KeptFrom e := by
  rw [dependencies_ofDraft_eq_map] at hd
  obtain ⟨e, he, rfl⟩ := List.mem_map.1 hd
  refine ⟨e, he, rfl, ?_⟩
  intro p hp
  obtain ⟨_, hdeployment, rfl⟩ := List.mem_map.1 hp
  obtain ⟨q, hq, rfl⟩ := List.mem_map.1 hdeployment
  exact ⟨q, hq, Deployment.keptFrom q⟩

/-- Only pins can be lost. -/
theorem addressOn?_stored (d : Dependency) (network : String) :
    (stored d).addressOn? network = d.addressOn? network := by
  rw [Dependency.addressOn?, Dependency.addressOn?, Dependency.on?, Dependency.on?, stored,
    List.map_map, List.find?_map, Option.map_map]
  congr 1
  · funext p
    exact (Deployment.ofPlacement_place p).2
  · congr 1
    funext p
    exact congrArg (· == network) (Deployment.ofPlacement_place p).1

open Dependency in
/-- A listed document places the contracts of its draft where the draft does. -/
theorem placedAt_ofDraft {draft : Draft} {names : List String}
    {address : String → String → Option String} (h : PlacedAt names address draft.dependencies) :
    PlacedAt names address (Document.ofDraft draft).dependencies := by
  rw [dependencies_ofDraft_eq_map]
  constructor
  · intro name
    have hsame : (draft.dependencies.map stored).map contract = draft.dependencies.map contract :=
      List.map_map
    rw [hsame]
    exact h.named name
  · intro kept hkept network
    obtain ⟨d, hd, rfl⟩ := List.mem_map.1 hkept
    rw [addressOn?_stored]
    exact h.address d hd network

end Listed

namespace Keyed

/-- The placements of a dependency by their networks. -/
def networksOf (d : Dependency) : Table Deployment :=
  Table.ofList (d.placements.map fun p => (p.network, Deployment.ofPlacement d.contract p))

/-- A dependency with the placements of a table. -/
def dependencyOf (name : String) (networks : Table Deployment) : Dependency :=
  ⟨name, networks.entries.map fun placed => placed.2.toPlacement placed.1⟩

/-- The placements of a contract under a placeholder. -/
def networks? (known : Table (Table (Table Deployment))) (mark name : String) :
    Option (Table Deployment) :=
  (known.get? mark).bind fun contracts => contracts.get? name

variable {known : Table (Table (Table Deployment))} {document : Document} {draft : Draft}
  {d : Dependency} {dependencies : List Dependency} {name network : String}

theorem networks?_addDependency (mark name : String) :
    networks? (addDependency known d) mark name =
      if placeholder d.contract = mark ∧ d.contract = name then some (networksOf d)
      else networks? known mark name :=
  Table.get?_update_insert known (placeholder d.contract) d.contract (networksOf d) mark name

theorem mem_dependencies_iff : d ∈ document.dependencies ↔ ∃ mark networks,
    networks? document.contents.dependencies mark d.contract = some networks ∧
      d = dependencyOf d.contract networks := by
  constructor
  · intro hd
    obtain ⟨contracts, hcontracts, hd⟩ := List.mem_flatMap.1 hd
    obtain ⟨⟨mark, _⟩, hmark, rfl⟩ := List.mem_map.1 hcontracts
    obtain ⟨⟨name, networks⟩, hname, rfl⟩ := List.mem_map.1 hd
    refine ⟨mark, networks, ?_, rfl⟩
    rw [networks?, Table.get?_eq_some_iff.2 hmark]
    exact Table.get?_eq_some_iff.2 hname
  · rintro ⟨mark, networks, hnetworks, hd⟩
    obtain ⟨contracts, hmark, hname⟩ := Option.bind_eq_some_iff.1 hnetworks
    refine List.mem_flatMap.2 ⟨contracts, ?_, ?_⟩
    · exact List.mem_map.2 ⟨_, Table.get?_eq_some_iff.1 hmark, rfl⟩
    · exact List.mem_map.2 ⟨_, Table.get?_eq_some_iff.1 hname, hd.symm⟩

/-- What is kept under the placeholders are the dependencies that were added, each name once. -/
structure Keeps (dependencies : List Dependency) (known : Table (Table (Table Deployment))) :
    Prop where
  sound : ∀ mark name networks, networks? known mark name = some networks →
    ∃ d ∈ dependencies, d.contract = name ∧ networks = networksOf d
  complete : ∀ d ∈ dependencies, ∃ mark networks, networks? known mark d.contract = some networks

theorem Keeps.add (h : Keeps dependencies known) (d : Dependency) :
    Keeps (dependencies ++ [d]) (addDependency known d) := by
  constructor
  · intro mark name networks hnetworks
    rw [networks?_addDependency] at hnetworks
    split at hnetworks
    next hsame =>
      cases hnetworks
      exact ⟨d, List.mem_append_right _ (.head _), hsame.2, rfl⟩
    next =>
      obtain ⟨other, hother, hfound⟩ := h.sound mark name networks hnetworks
      exact ⟨other, List.mem_append_left _ hother, hfound⟩
  · intro other hother
    rcases List.mem_append.1 hother with hold | hnew
    · obtain ⟨mark, networks, hnetworks⟩ := h.complete other hold
      refine ⟨mark, ?_⟩
      rw [networks?_addDependency]
      split
      next => exact ⟨_, rfl⟩
      next => exact ⟨networks, hnetworks⟩
    · rw [List.mem_singleton.1 hnew]
      refine ⟨placeholder d.contract, networksOf d, ?_⟩
      rw [networks?_addDependency, if_pos ⟨rfl, rfl⟩]

theorem keeps_foldl (dependencies : List Dependency) :
    Keeps dependencies (dependencies.foldl addDependency ∅) :=
  foldl_invariant ⟨fun _ _ _ => nofun, nofun⟩ (fun _ _ d h => h.add d) dependencies

theorem Deployment.keptFrom (contract : String) (placement : Placement) :
    ((ofPlacement contract placement).toPlacement placement.network).KeptFrom placement where
  network := rfl
  address := rfl
  height := by
    obtain ⟨network, address, _ | record⟩ := placement
    · nofun
    · intro kept hkept
      rw [toPlacement] at hkept
      split at hkept
      · cases hkept
      · cases hkept
        exact ⟨record, rfl, rfl⟩

theorem exists_keptFrom (hd : d ∈ (Document.ofDraft draft).dependencies) :
    ∃ e ∈ draft.dependencies, d.KeptFrom e := by
  obtain ⟨mark, networks, hnetworks, hd⟩ := mem_dependencies_iff.1 hd
  obtain ⟨e, he, hcontract, rfl⟩ :=
    (keeps_foldl draft.dependencies).sound mark d.contract networks hnetworks
  refine ⟨e, he, hcontract.symm, ?_⟩
  rw [hd]
  intro p hp
  obtain ⟨placed, hplaced, rfl⟩ := List.mem_map.1 hp
  obtain ⟨q, hq, rfl⟩ := List.mem_map.1 (Table.mem_of_mem_ofList hplaced)
  exact ⟨q, hq, Deployment.keptFrom e.contract q⟩

theorem addressOn?_dependencyOf (name network : String) (networks : Table Deployment) :
    (dependencyOf name networks).addressOn? network =
      (networks.get? network).map Deployment.address := by
  obtain ⟨entries, sorted⟩ := networks
  rw [Dependency.addressOn?, Dependency.on?, dependencyOf, Table.get?]
  dsimp only
  clear sorted
  induction entries with
  | nil => rfl
  | cons entry more ih =>
      rw [List.map_cons, List.find?_cons, Table.lookup?]
      by_cases hnetwork : entry.1 = network
      · rw [if_pos hnetwork]
        have hfirst : ((entry.2.toPlacement entry.1).network == network) = true :=
          beq_iff_eq.2 hnetwork
        rw [hfirst]
        rfl
      · rw [if_neg hnetwork]
        have hfirst : ((entry.2.toPlacement entry.1).network == network) = false :=
          beq_false_of_ne hnetwork
        rw [hfirst]
        exact ih

/-- Of the placements on one network the last is kept, which has the address of all of them. -/
theorem address_networksOf (h : d.IsDefinite) (network : String) :
    ((networksOf d).get? network).map Deployment.address = d.addressOn? network := by
  by_cases hmem : ∃ p ∈ d.placements, p.network = network
  · obtain ⟨p, hp, rfl⟩ := hmem
    have hname : p.network ∈ (d.placements.map fun p =>
        (p.network, Deployment.ofPlacement d.contract p)).map Prod.fst := by
      rw [List.map_map]
      exact List.mem_map_of_mem (f := fun p : Placement => p.network) hp
    obtain ⟨deployment, hget, hdeployment⟩ := Table.exists_get?_ofList hname
    obtain ⟨q, hq, hsame⟩ := List.mem_map.1 hdeployment
    obtain ⟨hnetwork, rfl⟩ := Prod.mk.inj hsame
    rw [networksOf, hget, h.addressOn? hp, Option.map_some]
    exact congrArg some (h q hq p hp hnetwork)
  · have hnone : network ∉ (d.placements.map fun p =>
        (p.network, Deployment.ofPlacement d.contract p)).map Prod.fst := by
      intro hname
      rw [List.map_map] at hname
      obtain ⟨p, hp, hnetwork⟩ := List.mem_map.1 hname
      exact hmem ⟨p, hp, hnetwork⟩
    rw [networksOf, Table.get?_ofList_of_not_mem hnone, Option.map_none,
      Dependency.addressOn?_eq_none fun p hp hnetwork => hmem ⟨p, hp, hnetwork⟩]

open Dependency in
/-- A keyed document places the contracts of its draft where the draft does. -/
theorem placedAt_ofDraft {names : List String} {address : String → String → Option String}
    (h : PlacedAt names address draft.dependencies)
    (hdefinite : ∀ d ∈ draft.dependencies, d.IsDefinite) :
    PlacedAt names address (Document.ofDraft draft).dependencies := by
  have hkeeps : Keeps draft.dependencies (Document.ofDraft draft).contents.dependencies :=
    keeps_foldl draft.dependencies
  constructor
  · intro name
    rw [← h.named name, List.mem_map, List.mem_map]
    constructor
    · rintro ⟨d, hd, rfl⟩
      obtain ⟨mark, networks, hnetworks, -⟩ := mem_dependencies_iff.1 hd
      obtain ⟨other, hother, hcontract, -⟩ := hkeeps.sound mark d.contract networks hnetworks
      exact ⟨other, hother, hcontract⟩
    · rintro ⟨d, hd, rfl⟩
      obtain ⟨mark, networks, hnetworks⟩ := hkeeps.complete d hd
      exact ⟨dependencyOf d.contract networks,
        mem_dependencies_iff.2 ⟨mark, networks, hnetworks, rfl⟩, rfl⟩
  · intro d hd network
    obtain ⟨mark, networks, hnetworks, hd⟩ := mem_dependencies_iff.1 hd
    obtain ⟨other, hother, hcontract, rfl⟩ := hkeeps.sound mark d.contract networks hnetworks
    rw [hd, addressOn?_dependencyOf, address_networksOf (hdefinite other hother),
      h.address other hother, hcontract]
    rfl

end Keyed

/-- Whatever its format, a document shows no placement that is not in its draft, and no pin at
another height. -/
theorem Template.exists_keptFrom {draft : Draft} {d : Dependency}
    (hd : d ∈ (Template.ofDraft draft).view.dependencies) : ∃ e ∈ draft.dependencies,
      d.KeptFrom e := by
  rw [Template.ofDraft] at hd
  cases hformat : draft.format with
  | keyed =>
      rw [hformat] at hd
      exact Keyed.exists_keptFrom hd
  | listed =>
      rw [hformat] at hd
      exact Listed.exists_keptFrom hd

end Interaction
