import Interaction.Proofs.Build.Cancellation
import Interaction.Proofs.Build.Network
import Interaction.Proofs.Build.Pipeline
import Interaction.Proofs.Source.Imports
import Interaction.Proofs.Template.Placements

/-!
# The dependencies of a listed template

The dependencies of a listed template that was built are the distinct imports of its source, in the
order in which they come up. Each is placed where the registry has it or, if the registry does not
know it, at the address that the source spells out, and each placement has the pin of the registry,
or else the one of the chain of its network, whatever went on beside while it was computed.
-/

namespace Interaction

open Source

namespace Registry

variable {registry : Registry} {i : Import} {networks : List String} {places : List Resolved}
  {place : Resolved}

/-- A place has the registry's pin and its address, or the address that is spelled out. -/
theorem of_mem_resolveAll (h : registry.resolveAll i networks = .ok places)
    (hplace : place ∈ places) :
    place.contract = i.name ∧
      place.pin = (registry.entry? i.name place.network).bind Registration.pin ∧
      ((∃ found, registry.entry? i.name place.network = some found ∧
          place.address = found.address) ∨
        registry.deployments? i.name = none ∧ ∃ address, i.address = some address ∧
          place.address = Address.normalize address) := by
  rcases resolveAll_eq_ok h with ⟨known, hknown, rfl⟩ | ⟨hnone, address, haddress, rfl⟩
  · obtain ⟨placed, hplaced, rfl⟩ := List.mem_map.1 hplace
    have hentry := entry?_of_deployments? hknown hplaced
    dsimp only
    rw [hentry]
    exact ⟨rfl, rfl, .inl ⟨placed.2, rfl, rfl⟩⟩
  · obtain ⟨network, -, rfl⟩ := List.mem_map.1 hplace
    refine ⟨rfl, ?_, .inr ⟨hnone, address, haddress, rfl⟩⟩
    rw [entry?_eq_none hnone]
    rfl

/-- An import has one address on a network. -/
theorem address_eq_of_mem_resolveAll (h : registry.resolveAll i networks = .ok places)
    (hplace : place ∈ places) {other : Resolved} (hother : other ∈ places)
    (hnetwork : place.network = other.network) : place.address = other.address := by
  rcases resolveAll_eq_ok h with ⟨known, hknown, rfl⟩ | ⟨hnone, address, haddress, rfl⟩
  · obtain ⟨placed, hplaced, rfl⟩ := List.mem_map.1 hplace
    obtain ⟨placed', hplaced', rfl⟩ := List.mem_map.1 hother
    have hentry := entry?_of_deployments? hknown hplaced
    dsimp only at hnetwork
    rw [hnetwork, entry?_of_deployments? hknown hplaced'] at hentry
    exact (congrArg Registration.address (Option.some.inj hentry)).symm
  · obtain ⟨network, -, rfl⟩ := List.mem_map.1 hplace
    obtain ⟨network', -, rfl⟩ := List.mem_map.1 hother
    rfl

end Registry

namespace Builder

variable {builder : Builder} {conditions : Conditions} {session now : Session} {source : String}
  {earlier : Option Template} {t : Template} {imports : List Import} {draft : Draft}
  {dependencies : List Dependency}

/-- The registry was built by its own operations, and all addresses are hexadecimal that it, the
source or the deployed code names. -/
structure OnHex (builder : Builder) (source : String) : Prop where
  built : builder.registry.Built
  registry : ∀ network, builder.registry.IsHexOn network
  chains : ∀ attached ∈ builder.chains.entries, attached.2.ImportsHex
  source : ∀ i ∈ importsOf source, ∀ spelled, i.address = some spelled →
    Address.isHex spelled = true

/-- The placements of an import: those of the registry or else, at the address that the import
spells out, one on each configured network. -/
structure IsPlaced (builder : Builder) (i : Import) (placements : List Placement) : Prop where
  known : ∀ networks, builder.registry.deployments? i.name = some networks →
    placements.map (fun p => (p.network, p.address)) =
      networks.entries.map fun placed => (placed.1, placed.2.address)
  unknown : builder.registry.deployments? i.name = none →
    ∃ address, i.address = some address ∧
      placements.map (fun p => (p.network, p.address)) =
        builder.config.networks.map fun network => (network, Address.normalize address)

/-- The pin of a placement: the one that the registry holds or else, if a chain is attached to the
network, that of the pin tree at the latest height of the chain. -/
structure IsPinned (builder : Builder) (name : String) (p : Placement) : Prop where
  held : ∀ record, (builder.registry.entry? name p.network).bind Registration.pin = some record →
    p.pin = some record
  computed : (builder.registry.entry? name p.network).bind Registration.pin = none →
    ∀ chain, builder.chains.get? p.network = some chain →
      ∃ tree, (builder.engineOn p.network chain).pinTree [] ⟨name, p.address⟩ = some tree ∧
        p.pin = some (.ofTree chain.height tree)
  unpinned : (builder.registry.entry? name p.network).bind Registration.pin = none →
    builder.chains.get? p.network = none → p.pin = none

theorem OnHex.engineOn (h : builder.OnHex source) {network : String} {chain : Chain}
    (hchain : builder.chains.get? network = some chain) :
    (builder.engineOn network chain).OnHex where
  built := h.built
  registry := h.registry network
  sources := h.chains _ (Table.get?_eq_some_iff.1 hchain)

/-- What is imported in full is imported by the scan for imports. -/
theorem imports_of_prepare (h : builder.prepare session source earlier = .ok (imports, draft)) :
    imports = Import.distinct (importsOf source) := by
  obtain ⟨program, kind, hprogram, rfl, -⟩ := prepare_eq_ok h
  rw [Program.imports_eq_importsOf hprogram]

/-- What a template shows that was built is what is laid out of a draft of its source. -/
theorem view_of_build (h : (builder.build conditions session source earlier).1 = .ok t) :
    ∃ draft : Draft, draft.format = builder.config.format ∧
      draft.body = Build.body builder.config.format source ∧
      (builder.dependencies conditions session (Import.distinct (importsOf source))).Reaches
        (.ok draft.dependencies) ∧
      t.view.body = (Template.ofDraft draft).view.body ∧
      t.view.dependencies = (Template.ofDraft draft).view.dependencies := by
  obtain ⟨imports, draft, dependencies, after, hprepare, hdependencies, hfinish⟩ := build_eq_ok h
  have hreaches := Course.reaches_run (builder.dependencies conditions session imports) session
  rw [hdependencies, imports_of_prepare hprepare] at hreaches
  obtain ⟨hformat, hbody⟩ := format_body_of_prepare hprepare
  exact ⟨{ draft with dependencies := dependencies }, hformat, hbody, hreaches,
    view_of_finish hfinish⟩

section Places

variable {places : List (List Resolved)} {place : Resolved}
  (hplaces : builder.IsResolved imports places)

include hplaces

theorem IsResolved.exists_import (hplace : place ∈ places.flatten) : ∃ i ∈ imports, ∃ found,
    builder.registry.resolveAll i builder.config.networks = .ok found ∧ place ∈ found := by
  obtain ⟨found, hfound, hplace⟩ := List.mem_flatten.1 hplace
  obtain ⟨i, hi, hresolve⟩ := exists_of_mem_right hplaces hfound
  exact ⟨i, hi, found, hresolve, hplace⟩

theorem IsResolved.isHex (h : builder.OnHex source)
    (hsource : ∀ i ∈ imports, i ∈ importsOf source) (hplace : place ∈ places.flatten) :
    Address.isHex place.address = true := by
  obtain ⟨i, hi, found, hresolve, hmem⟩ := hplaces.exists_import hplace
  obtain ⟨-, -, ⟨known, hknown, haddress⟩ | ⟨-, address, hspelled, haddress⟩⟩ :=
    Registry.of_mem_resolveAll hresolve hmem
  · rw [haddress]
    exact h.registry place.network i.name known hknown
  · rw [haddress]
    exact Address.isHex_normalize (h.source i (hsource i hi) address hspelled)

/-- Places of one contract on one network have one address. -/
theorem IsResolved.address_eq
    (hdistinct : ∀ i ∈ imports, ∀ j ∈ imports, i.name = j.name → i = j)
    (hplace : place ∈ places.flatten) {other : Resolved} (hother : other ∈ places.flatten)
    (hcontract : place.contract = other.contract) (hnetwork : place.network = other.network) :
    place.address = other.address := by
  obtain ⟨i, hi, found, hresolve, hmem⟩ := hplaces.exists_import hplace
  obtain ⟨j, hj, found', hresolve', hmem'⟩ := hplaces.exists_import hother
  rw [(Registry.of_mem_resolveAll hresolve hmem).1,
    (Registry.of_mem_resolveAll hresolve' hmem').1] at hcontract
  cases hdistinct i hi j hj hcontract
  cases hresolve.symm.trans hresolve'
  exact Registry.address_eq_of_mem_resolveAll hresolve hmem hmem' hnetwork

/-- Each place is given its pin, whatever goes on beside. -/
theorem IsResolved.isPinned (h : builder.OnHex source)
    (hsource : ∀ i ∈ imports, i ∈ importsOf source)
    (hdistinct : ∀ i ∈ imports, ∀ j ∈ imports, i.name = j.name → i = j)
    {pinned : List (String × Table PinRecord)}
    (hpinned : (builder.pinNetworks conditions now (builder.workload places.flatten)).Reaches
      (.ok pinned)) (hplace : place ∈ places.flatten) :
    builder.IsPinned place.contract (placement (Table.ofList pinned) place) := by
  obtain ⟨i, hi, found, hresolve, hmem⟩ := hplaces.exists_import hplace
  obtain ⟨hname, hpin, -⟩ := Registry.of_mem_resolveAll hresolve hmem
  rw [← hname] at hpin
  constructor
  · intro record hrecord
    exact pin_placement_of_some (hpin.trans hrecord)
  · intro hnone chain (hchain : builder.chains.get? place.network = some chain)
    have hunpinned := hpin.trans hnone
    have hroot := mem_rootsOn hplace hunpinned
    obtain ⟨records, hrecords, hreaches⟩ :=
      exists_get?_of_pinNetworks hpinned hchain (List.ne_nil_of_mem hroot)
    have hroots : ∀ root ∈ rootsOn place.network places.flatten,
        Address.isHex root.address = true := by
      intro root hroot
      obtain ⟨other, hother, -, rfl⟩ := exists_of_mem_rootsOn hroot
      exact hplaces.isHex h hsource hother
    obtain ⟨other, hother, hsame, tree, htree, hget⟩ :=
      exists_get?_of_pinNetwork (h.engineOn hchain) hroots hreaches hroot
    obtain ⟨twin, htwin, hnetwork, rfl⟩ := exists_of_mem_rootsOn hother
    have hcontract : twin.contract = place.contract := hsame
    rw [hcontract, hplaces.address_eq hdistinct htwin hplace hcontract hnetwork] at htree
    refine ⟨tree, htree, ?_⟩
    rw [pin_placement_of_none hunpinned, hrecords]
    exact hget
  · intro hnone (hchain : builder.chains.get? place.network = none)
    rw [pin_placement_of_none (hpin.trans hnone), get?_of_pinNetworks_of_none hpinned hchain]
    rfl

end Places

/-- Each import is placed where it is resolved to. -/
theorem isPlaced_of_resolveAll {i : Import} {found : List Resolved}
    (h : builder.registry.resolveAll i builder.config.networks = .ok found)
    (pinned : Table (Table PinRecord)) : builder.IsPlaced i (found.map (placement pinned)) := by
  have hon : (found.map (placement pinned)).map (fun p => (p.network, p.address)) =
      found.map fun place => (place.network, place.address) := by
    rw [List.map_map]
    rfl
  rcases Registry.resolveAll_eq_ok h with ⟨known, hknown, rfl⟩ | ⟨hnone, address, haddress, rfl⟩
  · constructor
    · intro networks hnetworks
      cases hknown.symm.trans hnetworks
      rw [hon, List.map_map]
      rfl
    · intro hnone
      cases hknown.symm.trans hnone
  · constructor
    · intro networks hknown
      cases hknown.symm.trans hnone
    · intro _
      refine ⟨address, haddress, ?_⟩
      rw [hon, List.map_map]
      rfl

/-- The pin of a placement has its tree, since the registry holds no others. -/
theorem IsPinned.hasTree {name : String} {p : Placement} (h : builder.IsPinned name p)
    (hbuilt : builder.registry.Built) : ∀ record ∈ p.pin, record.HasTree := by
  intro record hrecord
  cases hheld : (builder.registry.entry? name p.network).bind Registration.pin with
  | some known =>
      obtain ⟨found, hfound, hpin⟩ := Option.bind_eq_some_iff.1 hheld
      rw [h.held known hheld] at hrecord
      cases hrecord
      exact hbuilt.hasTrees name p.network found hfound _ hpin
  | none =>
      cases hchain : builder.chains.get? p.network with
      | some chain =>
          obtain ⟨tree, -, hpin⟩ := h.computed hheld chain hchain
          rw [hpin] at hrecord
          cases hrecord
          exact ⟨chain.height, tree, rfl⟩
      | none =>
          rw [h.unpinned hheld hchain] at hrecord
          cases hrecord

/-- The dependencies of a build, whatever goes on beside it. -/
theorem forall₂_of_dependencies (h : builder.OnHex source)
    (hdependencies : (builder.dependencies conditions now
      (Import.distinct (importsOf source))).Reaches (.ok dependencies)) :
    List.Forall₂ (fun i d => d.contract = i.name ∧ builder.IsPlaced i d.placements ∧
        ∀ p ∈ d.placements, builder.IsPinned i.name p)
      (Import.distinct (importsOf source)) dependencies := by
  obtain ⟨places, pinned, hplaces, hpinned, hall⟩ := of_dependencies hdependencies
  refine hall.imp ?_
  rintro i d ⟨found, hfound, hresolve, rfl⟩
  refine ⟨rfl, isPlaced_of_resolveAll hresolve _, ?_⟩
  intro p hp
  obtain ⟨place, hplace, rfl⟩ := List.mem_map.1 hp
  rw [← (Registry.of_mem_resolveAll hresolve hplace).1]
  exact hplaces.isPinned h (fun i hi => Import.mem_of_mem_distinct hi)
    (fun i hi j hj => Import.eq_of_mem_distinct hi hj) hpinned
    (List.mem_flatten_of_mem hfound hplace)

/-- The dependencies of a listed template are the distinct imports of its source in the order in
which they come up, each with its placements and their pins. Nothing that may go on during the
build, in whatever order, makes a difference. -/
theorem dependencies_of_build (h : builder.OnHex source) (hformat : builder.config.format = .listed)
    (hbuild : (builder.build conditions session source earlier).1 = .ok t) :
    t.view.dependencies.map Dependency.contract =
        ((importsOf source).map Import.name).eraseDups ∧
      ∀ d ∈ t.view.dependencies, ∃ i,
        (importsOf source).find? (·.name == d.contract) = some i ∧
          builder.IsPlaced i d.placements ∧ ∀ p ∈ d.placements, builder.IsPinned d.contract p := by
  obtain ⟨draft, hdraft, -, hreaches, -, hview⟩ := view_of_build hbuild
  have hall := forall₂_of_dependencies h hreaches
  have hlisted : (Template.ofDraft draft).view.dependencies = draft.dependencies := by
    rw [Template.ofDraft]
    simp only [hdraft.trans hformat]
    refine Listed.dependencies_ofDraft ?_
    intro d hd p hp
    obtain ⟨i, -, -, -, hpinned⟩ := exists_of_mem_right hall hd
    exact (hpinned p hp).hasTree h.built
  rw [hview, hlisted]
  constructor
  · rw [contracts_of_dependencies hreaches,
      (Import.keepsFirst_distinct (importsOf source)).names]
  · intro d hd
    obtain ⟨i, hi, hname, hplaced, hpinned⟩ := exists_of_mem_right hall hd
    rw [hname]
    exact ⟨i, Import.find?_of_mem_distinct hi, hplaced, hpinned⟩

/-- All addresses are hexadecimal that the builder of a token with a chain meets. -/
theorem onHex_pinning : pinning.OnHex tokenSource where
  built := Registry.Built.coreWith ∅
  registry := Registry.isHexOn_of_entries (by decide +kernel)
  chains := by
    intro attached hattached
    have hchains : pinning.chains.entries =
        [("testnet", (Engine.shopOn "testnet" "0x1").chain)] := rfl
    rw [hchains, List.mem_singleton] at hattached
    have hex : (Engine.shopOn "testnet" "0x1").OnHex :=
      Engine.onHex_shopOn (by decide) (by decide)
    rw [hattached]
    exact hex.sources
  source := by
    have himports : importsOf tokenSource = [⟨"Token", some "0x1"⟩] := by cbv
    rw [himports]
    intro i hi spelled hspelled
    rw [List.mem_singleton.1 hi] at hspelled
    cases hspelled
    decide

/-- The token is placed where the source spells it out and has the pin of its chain. -/
theorem dependencies_of_build_pinning : ∃ t, (pinning.build {} {} tokenSource none).1 = .ok t ∧
    t.view.dependencies.map Dependency.contract = ["Token"] ∧
    ∀ d ∈ t.view.dependencies, ∀ p ∈ d.placements, ∃ tree,
      (pinning.engineOn p.network (Engine.shopOn "testnet" "0x1").chain).pinTree []
        ⟨d.contract, p.address⟩ = some tree ∧ p.pin = some (.ofTree 7 tree) := by
  obtain ⟨t, last, hbuild, -⟩ := exists_build_pinning
  have ht : (pinning.build {} {} tokenSource none).1 = .ok t := by rw [hbuild]
  have himports : importsOf tokenSource = [⟨"Token", some "0x1"⟩] := by cbv
  obtain ⟨hnames, hall⟩ := dependencies_of_build onHex_pinning rfl ht
  rw [himports] at hnames hall
  refine ⟨t, ht, hnames, ?_⟩
  intro d hd p hp
  obtain ⟨i, hi, hplaced, hpinned⟩ := hall d hd
  obtain ⟨hname, rfl⟩ : d.contract = "Token" ∧ i = ⟨"Token", some "0x1"⟩ := by
    have hfound : (i.name == d.contract) = true :=
      List.find?_some (p := fun i : Import => i.name == d.contract) hi
    have hmem := List.mem_singleton.1 (List.mem_of_find?_eq_some hi)
    rw [hmem, beq_iff_eq] at hfound
    exact ⟨hfound.symm, hmem⟩
  obtain ⟨address, -, hon⟩ := hplaced.unknown (by decide +kernel)
  have hnetwork : p.network = "testnet" := by
    have hmem := List.mem_map_of_mem (f := fun p : Placement => (p.network, p.address)) hp
    rw [hon] at hmem
    exact congrArg Prod.fst (List.mem_singleton.1 hmem)
  have hnone : (pinning.registry.entry? d.contract p.network).bind Registration.pin = none := by
    rw [hname, hnetwork]
    decide +kernel
  exact (hpinned p hp).computed hnone _ (by rw [hnetwork]; rfl)

end Builder

end Interaction
