import Interaction.Proofs.Template.Placements

/-!
# One draft in both layouts

A keyed document finds by name what a listed one keeps in order. If the names of a draft are
distinct, nothing of it is lost on the way: both documents place the same contracts on the same
networks with the same pins, also those whose placeholders are the same, and both have the same
parameters in the same order.
-/

namespace Interaction

/-- What stands for a contract on a network, with the height and the root of its pin. -/
structure Dependency.Entry where
  contract : String
  network : String
  address : String
  pin : Option (Nat × String)
  deriving DecidableEq, Repr

def Dependency.Entry.ofPlacement (contract : String) (p : Placement) : Entry :=
  ⟨contract, p.network, p.address, p.pin.map fun record => (record.height, record.pin)⟩

/-- The contract and the network of an entry. -/
def Dependency.Entry.place (entry : Entry) : String × String :=
  (entry.contract, entry.network)

/-- What a parameter is apart from its texts. -/
def Argument.signature (a : Argument) : String × Nat × String :=
  (a.label, a.index, a.type)

def Dependency.entries (d : Dependency) : List Entry :=
  d.placements.map (Entry.ofPlacement d.contract)

namespace View

/-- All that stands for a contract on a network. -/
def entriesOn (view : View) (contract network : String) : List Dependency.Entry :=
  (view.dependencies.flatMap Dependency.entries).filter fun entry =>
    entry.place = (contract, network)

/-- Whether two views say the same of an interaction, its parameters and its contracts. -/
structure Matches (v w : View) : Prop where
  kind : v.kind = w.kind
  isReadOnly : v.isReadOnly = w.isReadOnly
  isMutating : v.isMutating = w.isMutating
  interface : v.interface = w.interface
  body : v.body = w.body
  parameters : v.parameters.map Argument.signature = w.parameters.map Argument.signature
  /-- The parameters stand in the order of their indices. -/
  ordered : (v.parameters.map Argument.index).Pairwise (· < ·)
  entries : ∀ contract network, v.entriesOn contract network = w.entriesOn contract network

end View

/-- A draft whose names are distinct, with a tree and a root for each pin. -/
structure Draft.IsDistinct (draft : Draft) : Prop where
  contracts : (draft.dependencies.map Dependency.contract).Nodup
  networks : ∀ d ∈ draft.dependencies, (d.placements.map Placement.network).Nodup
  pins : ∀ d ∈ draft.dependencies, ∀ p ∈ d.placements, ∀ record ∈ p.pin,
    record.HasTree ∧ record.pin ≠ ""
  labels : (draft.parameters.map Argument.label).Nodup
  indices : (draft.parameters.map Argument.index).Nodup

/-- Of distinct items a list holds at most one of a kind, so its order does not matter to one. -/
theorem filter_eq_of_perm {α β : Type} [DecidableEq β] {key : α → β} {items others : List α}
    (h : items.Perm others) (hnodup : (others.map key).Nodup) (k : β) :
    (items.filter fun a => key a = k) = others.filter fun a => key a = k := by
  have hkeys : (others.filter fun a => key a = k).map key =
      List.replicate (others.filter fun a => key a = k).length k := by
    rw [List.eq_replicate_iff, List.length_map]
    refine ⟨rfl, List.forall_mem_map.2 fun a ha => ?_⟩
    exact of_decide_eq_true (List.mem_filter.1 ha).2
  have hone : (others.filter fun a => key a = k).length ≤ 1 := by
    rw [← List.nodup_replicate, ← hkeys]
    exact hnodup.sublist (List.filter_sublist.map key)
  have hperm := h.filter fun a => key a = k
  match hkept : others.filter fun a => key a = k, hone with
  | [], _ =>
      rw [hkept] at hperm
      exact List.perm_nil.1 hperm
  | [a], _ =>
      rw [hkept] at hperm
      exact List.perm_singleton.1 hperm

/-! ### The dependencies of a keyed document -/

namespace Keyed

variable {draft : Draft} {d : Dependency}

/-- A dependency as a keyed document keeps it. -/
def kept (d : Dependency) : Dependency :=
  dependencyOf d.contract (networksOf d)

/-- Whatever is kept is kept under the placeholder of its name. -/
theorem mark_of_networks? (dependencies : List Dependency) {mark name : String}
    {networks : Table Deployment}
    (h : networks? (dependencies.foldl addDependency ∅) mark name = some networks) :
    mark = placeholder name := by
  have hstart : networks? ∅ mark name = some networks → mark = placeholder name := nofun
  refine foldl_invariant (I := fun (_ : List Dependency) known =>
    networks? known mark name = some networks → mark = placeholder name) hstart ?_ dependencies h
  intro _ known d ih hadded
  rw [networks?_addDependency] at hadded
  split at hadded
  next hsame => rw [← hsame.1, hsame.2]
  next => exact ih hadded

/-- No dependency is kept twice: those of one name have one placeholder. -/
theorem nodup_dependencies (draft : Draft) : (Document.ofDraft draft).dependencies.Nodup := by
  rw [Document.dependencies, Table.values, List.flatMap_map, List.nodup_flatMap]
  constructor
  · intro contracts _
    refine List.Nodup.of_map Dependency.contract ?_
    rw [List.map_map]
    exact contracts.2.nodup_names
  · refine (Table.sorted _).imp_of_mem ?_
    intro a b ha hb hlt d hd hd'
    have hmark {entry : String × Table (Table Deployment)}
        (hentry : entry ∈ (Document.ofDraft draft).contents.dependencies.entries)
        (hd : d ∈ entry.2.entries.map fun entry =>
          dependencyOf entry.1 entry.2) : entry.1 = placeholder d.contract := by
      obtain ⟨⟨name, networks⟩, hname, rfl⟩ := List.mem_map.1 hd
      have hnetworks : networks? (Document.ofDraft draft).contents.dependencies entry.1 name =
          some networks := Option.bind_eq_some_iff.2
        ⟨entry.2, Table.get?_eq_some_iff.2 hentry, Table.get?_eq_some_iff.2 hname⟩
      exact mark_of_networks? draft.dependencies hnetworks
    rw [hmark ha hd, hmark hb hd'] at hlt
    exact String.lt_irrefl _ hlt

/-- The dependencies of a keyed document are those of its draft, in an order of their own. -/
theorem perm_dependencies (h : (draft.dependencies.map Dependency.contract).Nodup) :
    (Document.ofDraft draft).dependencies.Perm (draft.dependencies.map kept) := by
  have hkeeps : Keeps draft.dependencies (Document.ofDraft draft).contents.dependencies :=
    keeps_foldl draft.dependencies
  have hnodup : (draft.dependencies.map kept).Nodup := by
    refine List.Nodup.of_map Dependency.contract ?_
    rw [List.map_map]
    exact h
  refine (List.perm_ext_iff_of_nodup (nodup_dependencies draft) hnodup).2 fun d => ?_
  rw [mem_dependencies_iff, List.mem_map]
  constructor
  · rintro ⟨mark, networks, hnetworks, hd⟩
    obtain ⟨other, hother, hcontract, rfl⟩ := hkeeps.sound mark d.contract networks hnetworks
    exact ⟨other, hother, by rw [hd, kept, hcontract]⟩
  · rintro ⟨d, hd, rfl⟩
    obtain ⟨mark, networks, hnetworks⟩ := hkeeps.complete d hd
    obtain ⟨other, hother, hcontract, rfl⟩ := hkeeps.sound mark d.contract networks hnetworks
    cases List.inj_on_of_nodup_map h hother hd hcontract
    exact ⟨mark, _, hnetworks, rfl⟩

/-- Distinct placements are all kept, in an order of their own and without the trees of their
pins. -/
theorem perm_entries_kept (h : (d.placements.map Placement.network).Nodup)
    (hpins : ∀ p ∈ d.placements, ∀ record ∈ p.pin, record.pin ≠ "") :
    (kept d).entries.Perm d.entries := by
  have hnames : ((d.placements.map fun p =>
      (p.network, Deployment.ofPlacement d.contract p)).map Prod.fst).Nodup := by
    rw [List.map_map]
    exact h
  have hentry : ∀ p ∈ d.placements, Dependency.Entry.ofPlacement d.contract
      ((Deployment.ofPlacement d.contract p).toPlacement p.network) =
        Dependency.Entry.ofPlacement d.contract p := by
    rintro ⟨network, address, _ | record⟩ hp
    · rfl
    · simp [Dependency.Entry.ofPlacement, Deployment.toPlacement, Deployment.ofPlacement,
        hpins _ hp record rfl]
  have hperm := (Table.perm_ofList hnames).map fun placed =>
    Dependency.Entry.ofPlacement d.contract (placed.2.toPlacement placed.1)
  rw [List.map_map] at hperm
  rw [Dependency.entries, kept, dependencyOf, List.map_map]
  exact hperm.trans (.of_eq (List.map_congr_left hentry))

end Keyed

/-! ### Parameters by their indices -/

theorem pairwise_mergeSort_index (as : List Argument) :
    (as.mergeSort fun a b => a.index ≤ b.index).Pairwise fun a b => a.index ≤ b.index := by
  refine (List.pairwise_mergeSort ?_ ?_ as).imp of_decide_eq_true
  · intro a b c hab hbc
    exact decide_eq_true ((of_decide_eq_true hab).trans (of_decide_eq_true hbc))
  · intro a b
    rw [Bool.or_eq_true, decide_eq_true_eq, decide_eq_true_eq]
    exact Nat.le_total _ _

/-- Parameters that have been sorted stand in strict order if their indices are distinct. -/
theorem pairwise_index_mergeSort {as bs : List Argument}
    (h : ((as.mergeSort fun a b => a.index ≤ b.index).map Argument.signature).Perm
      (bs.map Argument.signature))
    (hnodup : (bs.map Argument.index).Nodup) :
    ((as.mergeSort fun a b => a.index ≤ b.index).map Argument.index).Pairwise (· < ·) := by
  have hsorted : ((as.mergeSort fun a b => a.index ≤ b.index).map Argument.index).Pairwise
      (· ≤ ·) := List.pairwise_map.2 (pairwise_mergeSort_index as)
  have hindices := h.map fun signature => signature.2.1
  rw [List.map_map, List.map_map] at hindices
  have hdistinct := hindices.nodup_iff.2 hnodup
  exact (hsorted.and hdistinct).imp fun hlt => Nat.lt_of_le_of_ne hlt.1 hlt.2

/-- Sorting parameters of distinct indices forgets the order they were in. -/
theorem mergeSort_index_of_perm {as bs : List Argument} (h : as.Perm bs)
    (hnodup : (as.map Argument.index).Nodup) :
    (as.mergeSort fun a b => a.index ≤ b.index) = bs.mergeSort fun a b => a.index ≤ b.index := by
  have hperm := ((List.mergeSort_perm as fun a b => a.index ≤ b.index).trans h).trans
    (List.mergeSort_perm bs fun a b => a.index ≤ b.index).symm
  refine hperm.eq_of_pairwise ?_ (pairwise_mergeSort_index as) (pairwise_mergeSort_index bs)
  intro a b ha hb hab hba
  exact List.inj_on_of_nodup_map hnodup (List.mem_mergeSort.1 ha)
    (h.mem_iff.2 (List.mem_mergeSort.1 hb)) (Nat.le_antisymm hab hba)

/-- Distinct indices tell in which order parameters stand. -/
theorem eq_of_perm_signature {as bs : List Argument}
    (h : (as.map Argument.signature).Perm (bs.map Argument.signature))
    (has : (as.map Argument.index).Pairwise (· < ·))
    (hbs : (bs.map Argument.index).Pairwise (· < ·)) :
    as.map Argument.signature = bs.map Argument.signature := by
  have hpairwise {as : List Argument} (has : (as.map Argument.index).Pairwise (· < ·)) :
      (as.map Argument.signature).Pairwise fun s t => s.2.1 < t.2.1 :=
    List.pairwise_map.2 (List.pairwise_map.1 has)
  refine h.eq_of_pairwise ?_ (hpairwise has) (hpairwise hbs)
  intro s t _ _ hst hts
  exact absurd (hst.trans hts) (Nat.lt_irrefl _)

namespace Draft.IsDistinct

variable {draft : Draft} (h : draft.IsDistinct)

include h

theorem listed_dependencies :
    (Listed.Document.ofDraft draft).dependencies = draft.dependencies :=
  Listed.dependencies_ofDraft fun d hd p hp record hrecord => (h.pins d hd p hp record hrecord).1

/-- Each contract has one entry on each of its networks. -/
theorem nodup_place :
    ((draft.dependencies.flatMap Dependency.entries).map Dependency.Entry.place).Nodup := by
  rw [List.map_flatMap, List.nodup_flatMap]
  constructor
  · intro d hd
    refine List.Nodup.of_map Prod.snd ?_
    rw [Dependency.entries, List.map_map, List.map_map]
    exact h.networks d hd
  · refine (List.pairwise_map.1 h.contracts).imp fun hne => ?_
    intro place hd he
    obtain ⟨entry, hentry, rfl⟩ := List.mem_map.1 hd
    obtain ⟨other, hother, hplace⟩ := List.mem_map.1 he
    obtain ⟨p, -, rfl⟩ := List.mem_map.1 hentry
    obtain ⟨q, -, rfl⟩ := List.mem_map.1 hother
    exact hne (congrArg Prod.fst hplace).symm

theorem entriesOn_eq (contract network : String) :
    (Keyed.Document.ofDraft draft).view.entriesOn contract network =
      (Listed.Document.ofDraft draft).view.entriesOn contract network := by
  have hkept : ∀ d ∈ draft.dependencies, (Keyed.kept d).entries.Perm d.entries := fun d hd =>
    Keyed.perm_entries_kept (h.networks d hd) fun p hp record hrecord =>
      (h.pins d hd p hp record hrecord).2
  have hperm : ((Keyed.Document.ofDraft draft).dependencies.flatMap Dependency.entries).Perm
      (draft.dependencies.flatMap Dependency.entries) := by
    refine ((Keyed.perm_dependencies h.contracts).flatMap_right _).trans ?_
    rw [List.flatMap_map]
    exact List.Perm.flatMap_left _ hkept
  change (((Keyed.Document.ofDraft draft).dependencies.flatMap Dependency.entries).filter _) =
    ((Listed.Document.ofDraft draft).dependencies.flatMap Dependency.entries).filter _
  rw [h.listed_dependencies]
  exact filter_eq_of_perm hperm h.nodup_place _

/-- Distinct parameters are all kept, in an order of their own and without an output. -/
theorem perm_keyed_parameters :
    ((Keyed.Document.ofDraft draft).parameters.map Argument.signature).Perm
      (draft.parameters.map Argument.signature) := by
  have hlabels : ((draft.parameters.map fun a => (a.label, Keyed.Slot.ofArgument a)).map
      Prod.fst).Nodup := by
    rw [List.map_map]
    exact h.labels
  have hperm := (Table.perm_ofList hlabels).map fun entry =>
    (entry.2.toArgument entry.1).signature
  rw [List.map_map] at hperm
  refine ((List.mergeSort_perm _ _).map Argument.signature).trans ?_
  rw [List.map_map]
  exact hperm

omit h in
theorem perm_listed_parameters (draft : Draft) :
    ((Listed.Document.ofDraft draft).parameters.map Argument.signature).Perm
      (draft.parameters.map Argument.signature) := by
  refine ((List.mergeSort_perm _ _).map Argument.signature).trans ?_
  rw [Listed.Document.ofDraft, List.map_map, List.map_map]
  exact .refl _

end Draft.IsDistinct

/-- Whatever a draft says of distinct contracts, networks and parameters, both layouts say it. -/
theorem Draft.layouts_match {draft : Draft} (h : draft.IsDistinct) :
    (Template.ofDraft { draft with format := .keyed }).view.Matches
      (Template.ofDraft { draft with format := .listed }).view := by
  have hkeyed : ((Keyed.Document.ofDraft draft).parameters.map Argument.index).Pairwise (· < ·) :=
    pairwise_index_mergeSort h.perm_keyed_parameters h.indices
  have hlisted : ((Listed.Document.ofDraft draft).parameters.map Argument.index).Pairwise
      (· < ·) :=
    pairwise_index_mergeSort (IsDistinct.perm_listed_parameters draft) h.indices
  have hperm := h.perm_keyed_parameters.trans (IsDistinct.perm_listed_parameters draft).symm
  exact ⟨rfl, rfl, rfl, rfl, rfl, eq_of_perm_signature hperm hkeyed hlisted, hkeyed,
    h.entriesOn_eq⟩

/-- Two contracts of one placeholder, one of them pinned, and two parameters that are not in the
order of their indices. -/
def twinsDraft : Draft where
  kind := some .transaction
  body := "import \"Foo\"\nimport \"foo\"\ntransaction(a: Int, b: Int) \x7b\x7d\n"
  dependencies :=
    [⟨"foo", [⟨"testnet", "0x02", some (.ofTree 7 ⟨"aa", "bb", "foo", "0x02", []⟩)⟩,
      ⟨"mainnet", "0x03", none⟩]⟩, ⟨"Foo", [⟨"testnet", "0x01", none⟩]⟩]
  parameters := [⟨"b", 1, "Int", [], false, none⟩, ⟨"a", 0, "Int", [], false, none⟩]

theorem layouts_match_twins : placeholder "foo" = placeholder "Foo" ∧
    (Template.ofDraft { twinsDraft with format := .keyed }).view.Matches
      (Template.ofDraft { twinsDraft with format := .listed }).view ∧
    (Template.ofDraft { twinsDraft with format := .keyed }).view.entriesOn "foo" "testnet" =
      [⟨"foo", "testnet", "0x02", some (7, "aa")⟩] := by
  have hdistinct : twinsDraft.IsDistinct := by
    refine ⟨by decide, by decide, ?_, by decide, by decide⟩
    have hpin : (PinRecord.ofTree 7 ⟨"aa", "bb", "foo", "0x02", []⟩).HasTree ∧
        (PinRecord.ofTree 7 ⟨"aa", "bb", "foo", "0x02", []⟩).pin ≠ "" :=
      ⟨⟨7, _, rfl⟩, by decide⟩
    simpa [twinsDraft] using hpin
  have hmatches := Draft.layouts_match hdistinct
  refine ⟨by cbv, hmatches, ?_⟩
  rw [hmatches.entries]
  cbv

end Interaction
