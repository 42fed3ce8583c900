import Interaction.Proofs.Build.Dependencies
import Interaction.Proofs.Build.Numbers
import Interaction.Proofs.Pinning.Spending

/-!
# Chains are asked where there is something to pin

A build needs the chain of a network if it places an import there for which the registry has no pin.
No other chain is asked for anything, whatever else goes on and however the build ends. A build that
succeeds has asked each chain that it needs once for its height, and its pins are recorded at the
height that the chain answers.
-/

namespace Interaction

open Source

namespace Builder

variable {builder : Builder} {conditions : Conditions} {session now : Session} {source : String}
  {earlier : Option Template} {t : Template} {imports : List Import} {network : String}
  {chain : Chain} {roots : List Site} {places : List Resolved} {kind : Call → Bool} {n : Nat}

/-- Whether some import of a source is placed on a network without a pin of the registry. -/
def Needs (builder : Builder) (source network : String) : Prop :=
  ∃ i ∈ Import.distinct (importsOf source), ∃ places,
    builder.registry.resolveAll i builder.config.networks = .ok places ∧
      ∃ place ∈ places, place.network = network ∧ place.pin = none

/-! ### The networks that are worked on -/

theorem rootsOn_ne_nil_iff :
    rootsOn network places ≠ [] ↔ ∃ place ∈ places, place.network = network ∧ place.pin = none := by
  simp [rootsOn]

/-- The networks with something to pin are those that the build needs. -/
theorem needs_iff {places : List (List Resolved)}
    (h : builder.IsResolved (Import.distinct (importsOf source)) places) :
    builder.Needs source network ↔ rootsOn network places.flatten ≠ [] := by
  rw [rootsOn_ne_nil_iff]
  constructor
  · rintro ⟨i, hi, found, hfound, place, hplace, hon⟩
    obtain ⟨other, hother, hresolve⟩ := exists_of_mem_left h hi
    cases hfound.symm.trans hresolve
    exact ⟨place, List.mem_flatten_of_mem hother hplace, hon⟩
  · rintro ⟨place, hplace, hon⟩
    obtain ⟨i, hi, found, hfound, hmem⟩ := h.exists_import hplace
    exact ⟨i, hi, found, hfound, place, hmem, hon⟩

/-- Each network is worked on once. -/
theorem nodup_workload (builder : Builder) (places : List Resolved) :
    ((builder.workload places).map Prod.fst).Nodup := by
  have hattached : ((builder.chains.entries.map fun entry =>
      (entry.1, entry.2, rootsOn entry.1 places)).map Prod.fst).Nodup := by
    rw [List.map_map]
    exact builder.chains.nodup_names
  exact hattached.sublist (List.filter_sublist.map Prod.fst)

/-! ### The calls of a build -/

/-- The work for a network asks once for the height, and then for contracts of the network. -/
theorem spends_pinNetwork (hfetch : ∀ address name, kind (.fetch network address name) = false) :
    (builder.pinNetwork conditions now network chain roots).Spends kind Succeeds
      (kind (.height network)).toNat := by
  refine Course.Spends.andThen Engine.spends_latestHeightCourse ?_
  rintro later (failure | height) left hleft
  · exact nofun
  · rw [hleft ⟨height, rfl⟩]
    exact (Engine.spends_computePinsCourse (P := fun _ => True) hfetch).map fun _ _ => trivial

/-- The work for some networks asks once for the height of each. -/
theorem spends_pinNetworks {work : List (String × Chain × List Site)}
    (hfetch : ∀ item ∈ work, ∀ address name, kind (.fetch item.1 address name) = false) :
    (builder.pinNetworks conditions now work).Spends kind Succeeds
      ((work.map fun item => Call.height item.1).countP kind) := by
  induction work with
  | nil => exact fun _ => rfl
  | cons item more ih =>
      have hfirst : (builder.pinNetwork conditions now item.1 item.2.1 item.2.2).Spends kind
          Succeeds (kind (.height item.1)).toNat := spends_pinNetwork (hfetch item (.head _))
      have hmore := ih fun other hother => hfetch other (.tail _ hother)
      have hsum : ((item :: more).map fun item => Call.height item.1).countP kind =
          (kind (.height item.1)).toNat +
            (more.map fun item => Call.height item.1).countP kind := by
        rw [List.map_cons, List.countP_cons, Nat.add_comm]
        cases kind (.height item.1) <;> rfl
      rw [hsum]
      exact hfirst.both hmore

section Resolved

variable (h : ∀ places, builder.IsResolved imports places →
  (∀ item ∈ builder.workload places.flatten, ∀ address name,
    kind (.fetch item.1 address name) = false) ∧
  ((builder.workload places.flatten).map fun item => Call.height item.1).countP kind = n)

include h

theorem spends_dependencies :
    (builder.dependencies conditions now imports).Spends kind Succeeds n := by
  unfold Builder.dependencies
  split
  · exact nofun
  split
  · exact nofun
  next places hplaces =>
    obtain ⟨hfetch, hheights⟩ := h places (mapM_eq_ok_iff.1 hplaces)
    rw [← hheights]
    refine (spends_pinNetworks hfetch).map ?_
    rintro result ⟨dependencies, hresult⟩
    obtain ⟨pinned, hpinned, -⟩ := map_eq_ok_iff.1 hresult
    exact ⟨pinned, hpinned⟩

theorem spends_course (hsource : imports = Import.distinct (importsOf source)) :
    (builder.course conditions now source earlier).Spends kind Succeeds n := by
  unfold course
  split
  · exact nofun
  next found draft hprepare =>
    rw [imports_of_prepare hprepare, ← hsource]
    refine (spends_dependencies h).andThen ?_
    rintro later (failure | dependencies) left hleft
    · exact nofun
    · exact fun _ => hleft ⟨dependencies, rfl⟩

end Resolved

/-- A network that is not needed, or has no chain, is not worked on. -/
theorem fst_ne_of_mem_workload {places : List (List Resolved)}
    (h : builder.IsResolved (Import.distinct (importsOf source)) places)
    (hidle : ¬ (builder.Needs source network ∧ (builder.chains.get? network).isSome = true))
    {item : String × Chain × List Site} (hitem : item ∈ builder.workload places.flatten) :
    item.1 ≠ network := by
  rintro rfl
  obtain ⟨hchain, hroots, hsome⟩ := mem_workload_iff.1 hitem
  refine hidle ⟨(needs_iff h).2 (hroots ▸ hsome), ?_⟩
  rw [hchain, Option.isSome_some]

/-- A network that is needed and has a chain is worked on once. -/
theorem count_height_workload {places : List (List Resolved)}
    (h : builder.IsResolved (Import.distinct (importsOf source)) places)
    (hneeds : builder.Needs source network)
    (hchain : (builder.chains.get? network).isSome = true) :
    ((builder.workload places.flatten).map fun item => Call.height item.1).count
      (.height network) = 1 := by
  obtain ⟨chain, hchain⟩ := Option.isSome_iff_exists.1 hchain
  have hitem : (network, chain, rootsOn network places.flatten) ∈
      builder.workload places.flatten :=
    mem_workload_iff.2 ⟨hchain, rfl, (needs_iff h).1 hneeds⟩
  have hnodup : ((builder.workload places.flatten).map fun item => Call.height item.1).Nodup := by
    have hheights := (nodup_workload builder places.flatten).map
      (f := Call.height) fun _ _ heq => Call.height.inj heq
    rwa [List.map_map] at hheights
  exact List.count_eq_one_of_mem hnodup (List.mem_map_of_mem hitem)

/-! ### The heights of pins -/

/-- A pin that the registry does not hold is recorded at the height of a chain that was needed. -/
theorem height_of_dependencies {dependencies : List Dependency}
    (h : (builder.dependencies conditions now (Import.distinct (importsOf source))).Reaches
      (.ok dependencies)) {d : Dependency} (hd : d ∈ dependencies) {p : Placement}
    (hp : p ∈ d.placements)
    (hnone : (builder.registry.entry? d.contract p.network).bind Registration.pin = none)
    {record : PinRecord} (hrecord : record ∈ p.pin) :
    ∃ chain, builder.chains.get? p.network = some chain ∧
      chain.latestHeight p.network = .ok record.height := by
  obtain ⟨places, pinned, hplaces, hpinned, hall⟩ := of_dependencies h
  obtain ⟨i, hi, found, hfound, hresolve, rfl⟩ := exists_of_mem_right hall hd
  obtain ⟨place, hplace, rfl⟩ := List.mem_map.1 hp
  have hunpinned : place.pin = none :=
    (Registry.of_mem_resolveAll hresolve hplace).2.1.trans hnone
  rw [pin_placement_of_none hunpinned] at hrecord
  obtain ⟨records, hrecords, hget⟩ := Option.bind_eq_some_iff.1 hrecord
  obtain ⟨item, hitem, hreaches⟩ := exists_of_mem_right (of_pinNetworks hpinned)
    (Table.mem_of_mem_ofList (Table.get?_eq_some_iff.1 hrecords))
  have hon : place.network = item.1 := name_of_pinNetwork hreaches
  have hheight : record.height = item.2.1.height :=
    height_of_pinNetwork hreaches _ (Table.get?_eq_some_iff.1 hget)
  refine ⟨item.2.1, ?_, ?_⟩
  · rw [← (mem_workload_iff.1 hitem).1, ← hon]
    rfl
  · rw [hheight, ← latestHeight_of_pinNetwork hreaches, ← hon]
    rfl

/-! ### A build -/

/-- What a build has asked of chains, the latest first, and what came of it. -/
structure AsksAsNeeded (builder : Builder) (source : String) (result : Except Failure Template)
    (made : List Call) : Prop where
  /-- No chain is asked for anything unless it is needed. -/
  needed : ∀ call ∈ made, builder.Needs source call.network ∧
    (builder.chains.get? call.network).isSome = true
  /-- A build that succeeds has read the height of each chain that it needs, once. -/
  once : Succeeds result → ∀ network, (builder.chains.get? network).isSome = true →
    builder.Needs source network → made.count (.height network) = 1
  /-- The pins that are not the registry's are recorded at the heights that the chains answer. -/
  height : ∀ t, result = .ok t → ∀ d ∈ t.view.dependencies, ∀ p ∈ d.placements,
    (builder.registry.entry? d.contract p.network).bind Registration.pin = none →
      ∀ record ∈ p.pin, ∃ chain, builder.chains.get? p.network = some chain ∧
        chain.latestHeight p.network = .ok record.height
  /-- Without imports nothing is asked. -/
  importless : importsOf source = [] → made = []
  /-- If the registry has pins for all places with a chain, nothing is asked. -/
  held : (∀ i ∈ Import.distinct (importsOf source), ∀ places,
      builder.registry.resolveAll i builder.config.networks = .ok places → ∀ place ∈ places,
        (builder.chains.get? place.network).isSome = true → place.pin.isSome = true) → made = []

/-- Every call of a build is made to a chain that it needs. -/
theorem needs_of_mem_made {made : List Call}
    (hmade : (builder.build conditions session source earlier).2.calls = made ++ session.calls)
    {call : Call} (hcall : call ∈ made) :
    builder.Needs source call.network ∧ (builder.chains.get? call.network).isSome = true := by
  by_contra hidle
  have hspends : (builder.course conditions session source earlier).Spends
      (fun other => other.network == call.network) Succeeds 0 := by
    refine spends_course ?_ rfl
    intro places hplaces
    have hother (item : String × Chain × List Site)
        (hitem : item ∈ builder.workload places.flatten) : (item.1 == call.network) = false :=
      beq_false_of_ne (fst_ne_of_mem_workload hplaces hidle hitem)
    refine ⟨fun item hitem _ _ => hother item hitem, List.countP_eq_zero.2 ?_⟩
    rintro _ hheight
    obtain ⟨item, hitem, rfl⟩ := List.mem_map.1 hheight
    exact Bool.not_eq_true _ ▸ hother item hitem
  have hle := (hspends.run session).1
  rw [← build, hmade, List.countP_append] at hle
  have hpos : 0 < made.countP fun other => other.network == call.network :=
    List.countP_pos_iff.2 ⟨call, hcall, beq_self_eq_true _⟩
  omega

/-- A build that succeeds reads the height of a chain that it needs once. -/
theorem count_height_of_succeeds {made : List Call}
    (hmade : (builder.build conditions session source earlier).2.calls = made ++ session.calls)
    (hsucceeds : Succeeds (builder.build conditions session source earlier).1)
    (hneeds : builder.Needs source network)
    (hchain : (builder.chains.get? network).isSome = true) :
    made.count (.height network) = 1 := by
  have hspends : (builder.course conditions session source earlier).Spends
      (fun call => call == .height network) Succeeds 1 := by
    refine spends_course (fun places hplaces => ⟨fun item hitem address name => rfl, ?_⟩) rfl
    exact count_height_workload hplaces hneeds hchain
  have heq := (hspends.run session).2 hsucceeds
  rw [← build, hmade, List.countP_append] at heq
  exact Nat.add_right_cancel heq

/-- A pin of a built template that the registry does not hold is recorded at the height of a chain,
for the template keeps the heights of the resolved pins. -/
theorem height_of_build (h : (builder.build conditions session source earlier).1 = .ok t)
    {d : Dependency} (hd : d ∈ t.view.dependencies) {p : Placement} (hp : p ∈ d.placements)
    (hnone : (builder.registry.entry? d.contract p.network).bind Registration.pin = none)
    {record : PinRecord} (hrecord : record ∈ p.pin) :
    ∃ chain, builder.chains.get? p.network = some chain ∧
      chain.latestHeight p.network = .ok record.height := by
  obtain ⟨draft, -, -, hreaches, -, hview⟩ := view_of_build h
  rw [hview] at hd
  obtain ⟨e, he, hkept⟩ := Template.exists_keptFrom hd
  obtain ⟨q, hq, hplace⟩ := hkept.placements p hp
  obtain ⟨old, hold, hheight⟩ := hplace.height record hrecord
  rw [hkept.contract, hplace.network] at hnone
  rw [hheight, hplace.network]
  exact height_of_dependencies hreaches he hq hnone hold

/-- Chains are asked where there is something to pin, whatever goes on during the build. -/
theorem asksAsNeeded_of_build (builder : Builder) (conditions : Conditions) (session : Session)
    (source : String) (earlier : Option Template) :
    ∃ made, (builder.build conditions session source earlier).2.calls = made ++ session.calls ∧
      builder.AsksAsNeeded source (builder.build conditions session source earlier).1 made := by
  have hpaced : (builder.course conditions session source earlier).Paced := paced_course
  obtain ⟨made, hmade⟩ := hpaced.suffix_run session
  have hcalls : (builder.build conditions session source earlier).2.calls =
      made ++ session.calls := hmade.symm
  have hidle (h : ∀ network, ¬ (builder.Needs source network ∧
      (builder.chains.get? network).isSome = true)) : made = [] :=
    List.eq_nil_iff_forall_not_mem.2 fun call hcall =>
      h call.network (needs_of_mem_made hcalls hcall)
  refine ⟨made, hcalls, fun call => needs_of_mem_made hcalls, ?once, ?height, ?importless, ?held⟩
  case once =>
    intro hsucceeds network hchain hneeds
    exact count_height_of_succeeds hcalls hsucceeds hneeds hchain
  case height =>
    intro t ht d hd p hp hnone record hrecord
    exact height_of_build ht hd hp hnone hrecord
  case importless =>
    intro hnone
    refine hidle ?_
    rintro network ⟨⟨i, hi, -⟩, -⟩
    rw [hnone] at hi
    cases hi
  case held =>
    intro hheld
    refine hidle ?_
    rintro _ ⟨⟨i, hi, places, hplaces, place, hplace, rfl, hnone⟩, hchain⟩
    have hpin := hheld i hi places hplaces place hplace hchain
    rw [hnone] at hpin
    cases hpin

/-- The build of the token's source needs the chain of its network and reads its height once. -/
theorem asksAsNeeded_of_build_pinning : ∃ t last,
    pinning.build {} {} tokenSource none = (.ok t, last) ∧
      pinning.AsksAsNeeded tokenSource (.ok t) last.calls ∧
      pinning.Needs tokenSource "testnet" ∧ last.calls.count (.height "testnet") = 1 := by
  obtain ⟨t, last, hbuild, hcalls⟩ := exists_build_pinning
  obtain ⟨made, hmade, hasks⟩ := asksAsNeeded_of_build pinning {} {} tokenSource none
  rw [hbuild, List.append_nil] at hmade
  rw [hbuild, ← hmade] at hasks
  have hneeds : pinning.Needs tokenSource "testnet" :=
    (hasks.needed (.height "testnet") (by simp [hcalls])).1
  exact ⟨t, last, hbuild, hasks, hneeds, hasks.once ⟨t, rfl⟩ "testnet" rfl hneeds⟩

end Builder

end Interaction
