import Interaction.Build.Basic
import Interaction.Proofs.Pinning.Engine

/-!
# The pins of networks

The work for a network reads a height and pins contracts at it. Whatever goes on beside it, it
succeeds only with the latest height of the chain and with the pin trees that the plain recursion
finds, which are kept by the names of their contracts. The networks that are worked on are those
with a chain and something to pin, and the dependencies of a build are its imports with what was
kept for them.
-/

namespace Interaction

/-- A chain answers with its own height, if it does. -/
theorem Chain.height_of_latestHeight {chain : Chain} {network : String} {height : Nat}
    (h : chain.latestHeight network = .ok height) : height = chain.height := by
  rw [Chain.latestHeight] at h
  split at h
  · cases h
    rfl
  · cases h

/-- A height that is read is the answer of the chain. -/
theorem Engine.latestHeight_of_reaches {engine : Engine} {conditions : Conditions}
    {height : Nat} (h : (engine.latestHeightCourse conditions).Reaches (.ok height)) :
    engine.chain.latestHeight engine.network = .ok height := by
  cases h with
  | event session h =>
      rw [Course.reaches_ended, latestHeight] at h
      split at h
      · cases h
      · exact h

/-- A height that is read is the latest of the chain. -/
theorem Engine.height_of_latestHeightCourse {engine : Engine} {conditions : Conditions}
    {height : Nat} (h : (engine.latestHeightCourse conditions).Reaches (.ok height)) :
    height = engine.chain.height :=
  Chain.height_of_latestHeight (latestHeight_of_reaches h)

namespace Builder

/-- What pins the contracts of a network. -/
def engineOn (builder : Builder) (network : String) (chain : Chain) : Engine where
  network := network
  chain := chain
  registry := builder.registry
  limit := builder.config.fetchLimit

variable {builder : Builder} {conditions : Conditions} {now : Session} {network : String}
  {chain : Chain} {roots : List Site} {found : String × Table PinRecord} {places : List Resolved}

/-- The contracts of a network are pinned at the latest height of its chain. -/
theorem of_pinNetwork
    (h : (builder.pinNetwork conditions now network chain roots).Reaches (.ok found)) :
    ∃ later records cache, ((builder.engineOn network chain).computePinsCourse conditions roots
        chain.height {} later).Reaches (.ok records, cache) ∧
      found = (network, Table.ofList ((roots.map Site.name).zip records)) := by
  obtain ⟨failure | height, later, hread, h⟩ := Course.Reaches.of_andThen h
  · cases h
  · obtain ⟨⟨computed, cache⟩, hcomputed, hfound⟩ := Course.Reaches.of_map h
    obtain ⟨records, rfl, rfl⟩ := map_eq_ok_iff.1 hfound
    cases Engine.height_of_latestHeightCourse hread
    exact ⟨later, records, cache, hcomputed, rfl⟩

theorem latestHeight_of_pinNetwork
    (h : (builder.pinNetwork conditions now network chain roots).Reaches (.ok found)) :
    chain.latestHeight network = .ok chain.height := by
  obtain ⟨failure | height, later, hread, h⟩ := Course.Reaches.of_andThen h
  · cases h
  · have hanswer : chain.latestHeight network = .ok height := Engine.latestHeight_of_reaches hread
    rwa [Chain.height_of_latestHeight hanswer] at hanswer

theorem name_of_pinNetwork
    (h : (builder.pinNetwork conditions now network chain roots).Reaches (.ok found)) :
    found.1 = network := by
  obtain ⟨_, _, _, -, rfl⟩ := of_pinNetwork h
  rfl

/-- Under the name of a contract there is the pin of a contract of that name. -/
theorem exists_get?_of_pinNetwork (hengine : (builder.engineOn network chain).OnHex)
    (hroots : ∀ root ∈ roots, Address.isHex root.address = true)
    (h : (builder.pinNetwork conditions now network chain roots).Reaches (.ok found)) {root : Site}
    (hroot : root ∈ roots) :
    ∃ other ∈ roots, other.name = root.name ∧
      ∃ tree, (builder.engineOn network chain).pinTree [] other = some tree ∧
        found.2.get? root.name = some (.ofTree chain.height tree) := by
  obtain ⟨later, records, cache, hcomputed, rfl⟩ := of_pinNetwork h
  obtain ⟨trees, htrees, rfl⟩ :=
    Option.map_eq_some_iff.1 (Engine.mapM_pinTree_of_reaches hengine hroots hcomputed)
  rw [mapM_eq_some_iff] at htrees
  have hnames : root.name ∈ ((roots.map Site.name).zip
      (trees.map (PinRecord.ofTree chain.height))).map Prod.fst := by
    rw [List.map_fst_zip (by simp [htrees.length_eq])]
    exact List.mem_map_of_mem hroot
  obtain ⟨record, hrecord, hmem⟩ := Table.exists_get?_ofList hnames
  have hpinned : List.Forall₂ (fun name record => ∃ other ∈ roots, other.name = name ∧
      ∃ tree, (builder.engineOn network chain).pinTree [] other = some tree ∧
        record = .ofTree chain.height tree)
      (roots.map Site.name) (trees.map (PinRecord.ofTree chain.height)) := by
    rw [List.forall₂_map_left_iff, List.forall₂_map_right_iff]
    exact forall₂_imp_of_mem htrees fun other hother tree _ htree =>
      ⟨other, hother, rfl, tree, htree, rfl⟩
  obtain ⟨other, hother, hname, tree, htree, rfl⟩ := List.forall₂_zip hpinned hmem
  exact ⟨other, hother, hname, tree, htree, hrecord⟩

/-! ### The networks that are worked on -/

theorem mem_rootsOn {place : Resolved} (hplace : place ∈ places) (hpin : place.pin = none) :
    ⟨place.contract, place.address⟩ ∈ rootsOn place.network places := by
  refine List.mem_map.2 ⟨place, List.mem_filter.2 ⟨hplace, ?_⟩, rfl⟩
  simp [hpin]

theorem exists_of_mem_rootsOn {root : Site} (h : root ∈ rootsOn network places) :
    ∃ place ∈ places, place.network = network ∧ root = ⟨place.contract, place.address⟩ := by
  obtain ⟨place, hplace, rfl⟩ := List.mem_map.1 h
  obtain ⟨hplace, hkept⟩ := List.mem_filter.1 hplace
  rw [Bool.and_eq_true, beq_iff_eq] at hkept
  exact ⟨place, hplace, hkept.1, rfl⟩

theorem mem_workload_iff {item : String × Chain × List Site} :
    item ∈ builder.workload places ↔ builder.chains.get? item.1 = some item.2.1 ∧
      item.2.2 = rootsOn item.1 places ∧ item.2.2 ≠ [] := by
  rw [workload, List.mem_filter, List.mem_map, Table.get?_eq_some_iff, decide_eq_true_eq,
    ← and_assoc, and_congr_left_iff]
  intro _
  constructor
  · rintro ⟨entry, hentry, rfl⟩
    exact ⟨hentry, rfl⟩
  · rintro ⟨hentry, hroots⟩
    exact ⟨_, hentry, by rw [← hroots]⟩

/-- Each network that is worked on has its pins, and no other network has any. -/
theorem of_pinNetworks {work : List (String × Chain × List Site)}
    {pinned : List (String × Table PinRecord)}
    (h : (builder.pinNetworks conditions now work).Reaches (.ok pinned)) :
    List.Forall₂ (fun item found => (builder.pinNetwork conditions now item.1 item.2.1
      item.2.2).Reaches (.ok found)) work pinned :=
  List.forall₂_map_left_iff.1 (Course.Reaches.of_all h)

/-- What is kept for a network with something to pin is what its work comes to. -/
theorem exists_get?_of_pinNetworks {pinned : List (String × Table PinRecord)}
    (h : (builder.pinNetworks conditions now (builder.workload places)).Reaches (.ok pinned))
    (hchain : builder.chains.get? network = some chain) (hroots : rootsOn network places ≠ []) :
    ∃ records, (Table.ofList pinned).get? network = some records ∧
      (builder.pinNetwork conditions now network chain (rootsOn network places)).Reaches
        (.ok (network, records)) := by
  have hall := of_pinNetworks h
  have hitem : (network, chain, rootsOn network places) ∈ builder.workload places :=
    mem_workload_iff.2 ⟨hchain, rfl, hroots⟩
  obtain ⟨found, hfound, hreaches⟩ := exists_of_mem_left hall hitem
  obtain ⟨records, hrecords, hmem⟩ :=
    Table.exists_get?_ofList (List.mem_map_of_mem (f := Prod.fst) hfound)
  have hname : found.1 = network := name_of_pinNetwork hreaches
  rw [hname] at hrecords hmem
  refine ⟨records, hrecords, ?_⟩
  -- what is kept comes from an item of the network, of which there is only one
  obtain ⟨item, hother, hkept⟩ := exists_of_mem_right hall hmem
  obtain ⟨hchain', hroots', -⟩ := mem_workload_iff.1 hother
  have hon : network = item.1 := name_of_pinNetwork hkept
  rw [← hon, hchain, Option.some.injEq] at hchain'
  rwa [← hon, ← hchain', hroots', ← hon] at hkept

/-- Nothing is kept for a network without a chain. -/
theorem get?_of_pinNetworks_of_none {pinned : List (String × Table PinRecord)}
    (h : (builder.pinNetworks conditions now (builder.workload places)).Reaches (.ok pinned))
    (hchain : builder.chains.get? network = none) : (Table.ofList pinned).get? network = none := by
  refine Table.get?_ofList_of_not_mem ?_
  intro hmem
  obtain ⟨found, hfound, rfl⟩ := List.mem_map.1 hmem
  obtain ⟨item, hitem, hreaches⟩ := exists_of_mem_right (of_pinNetworks h) hfound
  rw [name_of_pinNetwork hreaches, (mem_workload_iff.1 hitem).1] at hchain
  cases hchain

theorem pin_placement_of_some {pinned : Table (Table PinRecord)} {place : Resolved}
    {record : PinRecord} (h : place.pin = some record) :
    (placement pinned place).pin = some record := by
  rw [placement, h]
  rfl

theorem pin_placement_of_none {pinned : Table (Table PinRecord)} {place : Resolved}
    (h : place.pin = none) : (placement pinned place).pin =
      (pinned.get? place.network).bind fun records => records.get? place.contract := by
  rw [placement, h]
  rfl

/-- The places of some imports. -/
def IsResolved (builder : Builder) (imports : List Import) (places : List (List Resolved)) : Prop :=
  List.Forall₂ (fun i found => builder.registry.resolveAll i builder.config.networks = .ok found)
    imports places

/-- The dependencies of a build are its imports, each on the networks where it is placed. -/
theorem of_dependencies {imports : List Import} {dependencies : List Dependency}
    (h : (builder.dependencies conditions now imports).Reaches (.ok dependencies)) :
    ∃ places pinned,
      builder.IsResolved imports places ∧
      (builder.pinNetworks conditions now (builder.workload places.flatten)).Reaches
        (.ok pinned) ∧
      List.Forall₂ (fun i d => ∃ found ∈ places,
          builder.registry.resolveAll i builder.config.networks = .ok found ∧
            d = ⟨i.name, found.map (placement (Table.ofList pinned))⟩)
        imports dependencies := by
  unfold Builder.dependencies at h
  split at h
  · cases h
  split at h
  next => cases h
  next places hplaces =>
    obtain ⟨found, hpinned, hfound⟩ := Course.Reaches.of_map h
    obtain ⟨pinned, rfl, rfl⟩ := map_eq_ok_iff.1 hfound
    have hresolved := mapM_eq_ok_iff.1 hplaces
    exact ⟨places, pinned, hresolved, hpinned, forall₂_map_zip (fun found =>
      (⟨found.1.name, found.2.map (placement (Table.ofList pinned))⟩ : Dependency)) hresolved⟩

theorem contracts_of_dependencies {imports : List Import} {dependencies : List Dependency}
    (h : (builder.dependencies conditions now imports).Reaches (.ok dependencies)) :
    dependencies.map Dependency.contract = imports.map Import.name := by
  obtain ⟨places, pinned, -, -, hall⟩ := of_dependencies h
  rw [← List.forall₂_eq_eq_eq, List.forall₂_map_left_iff, List.forall₂_map_right_iff]
  refine hall.flip.imp ?_
  rintro d i ⟨found, -, -, rfl⟩
  rfl

end Builder

end Interaction
