import Interaction.Build.Basic
import Interaction.Proofs.Build.Network
import Interaction.Proofs.Build.Pipeline
import Interaction.Proofs.Source.Count
import Interaction.Proofs.Template.Range

/-!
# The numbers of a build

A parameter's index is its position in the source, so it is less than the length of the source.
The heights of a template are those of the chains it was built against and those that the registry
recorded. So if these fit sixty-four bits, the numbers of what is built do.
-/

namespace Interaction

/-- Whether the height of a record, if there is one, fits sixty-four bits. -/
def HeightFits (pin : Option PinRecord) : Prop :=
  ∀ record ∈ pin, record.height ≤ Decimal.wordMax

/-- Whether the recorded heights of a registry fit sixty-four bits. -/
def Registry.FitsWords (registry : Registry) : Prop :=
  ∀ networks ∈ registry.contracts.entries, ∀ placed ∈ networks.2.entries, HeightFits placed.2.pin

/-- Whether all heights that a builder meets fit sixty-four bits. -/
structure Builder.FitsWords (builder : Builder) : Prop where
  registry : builder.registry.FitsWords
  chains : ∀ attached ∈ builder.chains.entries, attached.2.height ≤ Decimal.wordMax

namespace Build

variable {format : Format} {described : List ParameterMetadata} {language : String}
  {earlier : List Argument}

theorem index_of_argument {index : Nat} {parameter : Source.Parameter} {a : Argument}
    (h : argument format described language earlier index parameter = .ok a) :
    a.index = index := by
  unfold argument at h
  dsimp only at h
  split at h
  · cases h
  · cases h
    rfl

/-- By induction on the parameters: each has the position at which it stands. -/
theorem index_lt_of_argumentsFrom {index : Nat} {parameters : List Source.Parameter}
    {found : List Argument}
    (h : argumentsFrom format described language earlier index parameters = .ok found) :
    ∀ a ∈ found, a.index < index + parameters.length := by
  induction parameters generalizing index found with
  | nil =>
      cases h
      nofun
  | cons parameter more ih =>
      obtain ⟨first, hfirst, h⟩ := bind_eq_ok_iff.1 h
      obtain ⟨rest, hrest, h⟩ := bind_eq_ok_iff.1 h
      cases h
      rw [List.length_cons]
      intro a ha
      rcases List.mem_cons.1 ha with rfl | ha
      · rw [index_of_argument hfirst]
        omega
      · have := ih hrest a ha
        omega

theorem index_lt_of_arguments {parameters : List Source.Parameter} {metadata : Option Metadata}
    {found : List Argument}
    (h : arguments format parameters metadata language earlier = .ok found) :
    ∀ a ∈ found, a.index < parameters.length := by
  unfold arguments at h
  dsimp only at h
  split at h
  · cases h
  · intro a ha
    have := index_lt_of_argumentsFrom h a ha
    omega

end Build

namespace Builder

variable {builder : Builder} {conditions : Conditions} {session after : Session} {source : String}
  {earlier : Option Template} {imports : List Import} {draft : Draft}

/-- The indices of a draft are positions in its source. -/
theorem index_of_prepare (h : builder.prepare session source earlier = .ok (imports, draft)) :
    (∀ a ∈ draft.parameters, a.index < source.length) ∧ ∀ a ∈ draft.output, a.index = 0 := by
  obtain ⟨program, kind, hprogram, -, hdraft⟩ := prepare_eq_ok h
  have hlength := Source.Program.length_parameters hprogram
  obtain ⟨parameters, hparameters, hdraft⟩ := bind_eq_ok_iff.1 hdraft
  cases hdraft
  constructor
  · intro a ha
    exact Nat.lt_of_lt_of_le (Build.index_lt_of_arguments hparameters a ha) hlength
  · intro a ha
    have houtput : a ∈ Build.output builder.config.format kind program.returnType := ha
    unfold Build.output at houtput
    split at houtput
    · obtain ⟨type, -, rfl⟩ := Option.map_eq_some_iff.1 houtput
      rfl
    · cases houtput

end Builder

/-! ### Resolved places -/

namespace Registry

variable {registry : Registry} {i : Import}

theorem FitsWords.resolveAll (h : registry.FitsWords) {networks : List String}
    {places : List Resolved} (hplaces : registry.resolveAll i networks = .ok places) :
    ∀ place ∈ places, HeightFits place.pin := by
  intro place hplace
  rcases resolveAll_eq_ok hplaces with ⟨known, hknown, rfl⟩ | ⟨-, address, -, rfl⟩
  · obtain ⟨placed, hplaced, rfl⟩ := List.mem_map.1 hplace
    exact h _ (Table.get?_eq_some_iff.1 hknown) placed hplaced
  · obtain ⟨network, -, rfl⟩ := List.mem_map.1 hplace
    nofun

end Registry

/-! ### Computed pins -/

/-- Pins are recorded at the height they are computed for. -/
theorem Engine.height_of_computePinsCourse {engine : Engine} {conditions : Conditions}
    {roots : List Site} {height : Nat} {cache after : Cache} {now : Session}
    {records : List PinRecord}
    (h : (engine.computePinsCourse conditions roots height cache now).Reaches
      (.ok records, after)) :
    ∀ record ∈ records, record.height = height := by
  obtain ⟨⟨failure | ⟨⟩, found⟩, later, -, h⟩ := Course.Reaches.of_andThen h
  · cases h
  · rw [Course.reaches_ended, Prod.mk.injEq, map_eq_ok_iff] at h
    obtain ⟨⟨trees, -, rfl⟩, -⟩ := h
    intro record hrecord
    obtain ⟨tree, -, rfl⟩ := List.mem_map.1 hrecord
    rfl

namespace Builder

variable {builder : Builder} {conditions : Conditions} {session now : Session} {source : String}
  {earlier : Option Template} {imports : List Import} {draft : Draft}

theorem height_of_pinNetwork {network : String} {chain : Chain} {roots : List Site}
    {found : String × Table PinRecord}
    (h : (builder.pinNetwork conditions now network chain roots).Reaches (.ok found)) :
    ∀ record ∈ found.2.entries, record.2.height = chain.height := by
  obtain ⟨later, records, cache, hcomputed, rfl⟩ := of_pinNetwork h
  intro record hrecord
  have hmem := (List.of_mem_zip (Table.mem_of_mem_ofList hrecord)).2
  exact Engine.height_of_computePinsCourse hcomputed record.2 hmem

theorem height_of_pinNetworks {work : List (String × Chain × List Site)}
    {pinned : List (String × Table PinRecord)}
    (hwork : ∀ item ∈ work, item.2.1.height ≤ Decimal.wordMax)
    (h : (builder.pinNetworks conditions now work).Reaches (.ok pinned)) :
    ∀ found ∈ pinned, ∀ record ∈ found.2.entries, record.2.height ≤ Decimal.wordMax := by
  intro found hfound record hrecord
  obtain ⟨item, hitem, hreaches⟩ := exists_of_mem_right (of_pinNetworks h) hfound
  rw [height_of_pinNetwork hreaches record hrecord]
  exact hwork item hitem

theorem heightFits_placement {pinned : Table (Table PinRecord)} {place : Resolved}
    (hpinned : ∀ records ∈ pinned.entries, ∀ record ∈ records.2.entries,
      record.2.height ≤ Decimal.wordMax)
    (hplace : HeightFits place.pin) : HeightFits (placement pinned place).pin := by
  intro record hrecord
  cases hpin : place.pin with
  | some known =>
      rw [pin_placement_of_some hpin] at hrecord
      cases hrecord
      exact hplace record hpin
  | none =>
      rw [pin_placement_of_none hpin] at hrecord
      obtain ⟨records, hrecords, hget⟩ := Option.bind_eq_some_iff.1 hrecord
      exact hpinned _ (Table.get?_eq_some_iff.1 hrecords) _ (Table.get?_eq_some_iff.1 hget)

theorem heightFits_dependencies (hbuilder : builder.FitsWords) {dependencies : List Dependency}
    (h : (builder.dependencies conditions now imports).Reaches (.ok dependencies)) :
    ∀ d ∈ dependencies, ∀ placement ∈ d.placements, HeightFits placement.pin := by
  obtain ⟨places, pinned, -, hpinned, hall⟩ := of_dependencies h
  intro d hd made hmade
  obtain ⟨i, -, found, -, hresolve, rfl⟩ := exists_of_mem_right hall hd
  obtain ⟨place, hplace, rfl⟩ := List.mem_map.1 hmade
  refine heightFits_placement ?_ (hbuilder.registry.resolveAll hresolve place hplace)
  intro records hrecords
  refine height_of_pinNetworks ?_ hpinned records (Table.mem_of_mem_ofList hrecords)
  intro item hitem
  exact hbuilder.chains (item.1, item.2.1) (Table.get?_eq_some_iff.1 (mem_workload_iff.1 hitem).1)

/-- The numbers of a draft that is finished fit sixty-four bits. -/
theorem fitsWords_draft (hbuilder : builder.FitsWords) (hsource : source.length ≤ Decimal.wordMax)
    (hprepare : builder.prepare session source earlier = .ok (imports, draft))
    {dependencies : List Dependency}
    (hdependencies : (builder.dependencies conditions now imports).Reaches (.ok dependencies)) :
    Draft.FitsWords { draft with dependencies := dependencies } := by
  obtain ⟨hparameters, houtput⟩ := index_of_prepare hprepare
  constructor
  · intro a ha
    exact Nat.le_trans (Nat.le_of_lt (hparameters a ha)) hsource
  · intro a ha
    rw [houtput a ha]
    exact Nat.zero_le _
  · exact heightFits_dependencies hbuilder hdependencies

end Builder

end Interaction
