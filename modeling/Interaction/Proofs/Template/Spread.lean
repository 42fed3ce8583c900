import Interaction.Proofs.Template.Canonical
import Interaction.Proofs.Template.Placements
import Interaction.Proofs.Template.Sealing

/-!
# Contracts that are placed on given networks

A contract may be placed in the same way on each network of a list. How the list is ordered and how
often it names a network matters neither to where the contract is found nor to a keyed document. A
listed document keeps one placement for each time a network is named, and its canonical form too.
-/

namespace Interaction

variable {networks others : List String} {n : String}

/-- Dependencies that are the same, or that place one contract in one way on the networks of two
lists. -/
inductive Dependency.Spread (networks others : List String) : Dependency → Dependency → Prop
  | fixed (d : Dependency) : Spread networks others d d
  | placed (contract : String) (place : String → Placement)
      (hplace : ∀ n, (place n).network = n) :
      Spread networks others ⟨contract, networks.map place⟩ ⟨contract, others.map place⟩

namespace Dependency

variable {d e : Dependency} {place : String → Placement} {contract : String}

theorem on?_map (hplace : ∀ n, (place n).network = n) (contract : String) (networks : List String)
    (n : String) :
    on? ⟨contract, networks.map place⟩ n = if n ∈ networks then some (place n) else none := by
  have hnetwork : (fun p : Placement => p.network == n) ∘ place = (· == n) :=
    funext fun m => congrArg (· == n) (hplace m)
  rw [on?, List.find?_map, hnetwork]
  split
  next hn =>
    have hfound : (networks.find? (· == n)).isSome = true :=
      List.find?_isSome.2 ⟨n, hn, beq_self_eq_true n⟩
    obtain ⟨m, hm⟩ := Option.isSome_iff_exists.1 hfound
    have hname : m = n := by simpa using List.find?_some hm
    rw [hm, hname, Option.map_some]
  next hn =>
    have hnone : networks.find? (· == n) = none :=
      List.find?_eq_none.2 fun m hm hname => hn (beq_iff_eq.1 hname ▸ hm)
    rw [hnone, Option.map_none]

/-- The items of one name are repetitions of one item. -/
theorem filter_map_place (hplace : ∀ n, (place n).network = n) (networks : List String)
    (n : String) : ((networks.map place).filter fun p => p.network = n) =
      List.replicate (networks.count n) (place n) := by
  have hnetwork : (fun p : Placement => decide (p.network = n)) ∘ place = (· == n) :=
    funext fun m => congrArg (fun name => decide (name = n)) (hplace m)
  rw [List.filter_map, hnetwork, List.filter_beq, List.map_replicate]

namespace Spread

theorem contract_eq (h : Spread networks others d e) : d.contract = e.contract := by
  cases h <;> rfl

theorem on?_eq (h : Spread networks others d e) (hsame : ∀ n, n ∈ networks ↔ n ∈ others)
    (n : String) : d.on? n = e.on? n := by
  cases h with
  | fixed => rfl
  | placed contract place hplace => simp only [on?_map hplace, hsame]

end Spread

theorem Same.refl (d : Dependency) : d.Same d :=
  ⟨rfl, _, _, .refl _, .refl _, List.forall₂_same.2 fun _ _ => ⟨rfl, rfl, rfl⟩⟩

/-- A canonical form counts how often a network is named, and nothing else of the list. -/
theorem same_map_iff (hplace : ∀ n, (place n).network = n) :
    Same ⟨contract, networks.map place⟩ ⟨contract, others.map place⟩ ↔ networks.Perm others := by
  constructor
  · intro h
    obtain ⟨items, items', hitems, hitems', hall⟩ := h.placements
    have hnetworks (networks : List String) :
        (networks.map place).map Placement.network = networks := by
      rw [List.map_map]
      exact (List.map_congr_left fun n _ => hplace n).trans (List.map_id' networks)
    have heq : items.map Placement.network = items'.map Placement.network :=
      map_eq_map_iff.2 (hall.imp fun _ _ hpq => hpq.network)
    have hperm := (hitems.perm.map Placement.network).trans
      (heq ▸ (hitems'.perm.map Placement.network).symm)
    rwa [hnetworks, hnetworks] at hperm
  · intro hperm
    refine ⟨rfl, _, _, .of_filter fun n => ?_, .refl _,
      List.forall₂_same.2 fun _ _ => ⟨rfl, rfl, rfl⟩⟩
    rw [filter_map_place hplace, filter_map_place hplace, hperm.count_eq]

end Dependency

open Dependency

theorem Listed.spread_stored {d e : Dependency} (h : Spread networks others d e) :
    Spread networks others (stored d) (stored e) := by
  cases h with
  | fixed => exact .fixed _
  | placed contract place hplace =>
      have hkept : ∀ n, (Deployment.ofPlacement (place n)).toPlacement.network = n := fun n =>
        (Deployment.ofPlacement_place (place n)).1.trans (hplace n)
      rw [stored, stored, List.map_map, List.map_map, List.map_map, List.map_map]
      exact .placed contract _ hkept

theorem Keyed.networksOf_eq_of_spread {d e : Dependency} (h : Spread networks others d e)
    (hsame : ∀ n, n ∈ networks ↔ n ∈ others) : networksOf d = networksOf e := by
  cases h with
  | fixed => rfl
  | placed contract place hplace =>
      rw [networksOf, networksOf, List.map_map, List.map_map]
      refine Table.ofList_congr ?_ ?_
      · intro a ha b hb hname
        obtain ⟨n, -, rfl⟩ := List.mem_map.1 ha
        obtain ⟨m, -, rfl⟩ := List.mem_map.1 hb
        have hnm : n = m := (hplace n).symm.trans (hname.trans (hplace m))
        rw [hnm]
      · intro entry
        simp only [List.mem_map, hsame]

variable {ds es : List Dependency}

theorem Keyed.foldl_addDependency_congr (h : List.Forall₂ (Spread networks others) ds es)
    (hsame : ∀ n, n ∈ networks ↔ n ∈ others) (known : Table (Table (Table Deployment))) :
    ds.foldl addDependency known = es.foldl addDependency known := by
  induction h generalizing known with
  | nil => rfl
  | @cons d e _ _ hfirst _ ih =>
      have hadd : addDependency known d = addDependency known e := by
        have hnetworks := networksOf_eq_of_spread hfirst hsame
        rw [networksOf, networksOf] at hnetworks
        rw [addDependency, addDependency, hnetworks, hfirst.contract_eq]
      rw [List.foldl_cons, List.foldl_cons, hadd, ih]

theorem Executable.addresses_congr (h : List.Forall₂ (Spread networks others) ds es)
    (hsame : ∀ n, n ∈ networks ↔ n ∈ others) (n : String) :
    addresses ds n = addresses es n := by
  rw [addresses, addresses]
  generalize (∅ : Table String) = known
  induction h generalizing known with
  | nil => rfl
  | @cons d e _ _ hfirst _ ih =>
      have hbind : bind n known d = bind n known e := by
        rw [bind, bind, hfirst.on?_eq hsame, hfirst.contract_eq]
      rw [List.foldlM_cons, List.foldlM_cons, hbind]
      exact congrArg _ (funext fun known => ih known)

namespace Template

variable {draft : Draft}

theorem ofDraft_eq_of_spread (h : List.Forall₂ (Spread networks others) ds es)
    (hsame : ∀ n, n ∈ networks ↔ n ∈ others) (hformat : draft.format = .keyed) :
    ofDraft { draft with dependencies := ds } = ofDraft { draft with dependencies := es } := by
  simp only [ofDraft, hformat, Keyed.Document.ofDraft, Keyed.foldl_addDependency_congr h hsame]

theorem dependencies_ofDraft_of_listed (hformat : draft.format = .listed) :
    (ofDraft draft).view.dependencies = draft.dependencies.map Listed.stored := by
  rw [ofDraft]
  simp only [hformat]
  exact Listed.dependencies_ofDraft_eq_map draft

theorem body_ofDraft (draft : Draft) : (ofDraft draft).view.body = draft.body := by
  rw [ofDraft]
  cases draft.format <;> rfl

/-- The code and so the pin of a network is the same in both cases. -/
theorem networkPin_eq_of_spread (h : List.Forall₂ (Spread networks others) ds es)
    (hsame : ∀ n, n ∈ networks ↔ n ∈ others) (n : String) :
    (ofDraft { draft with dependencies := ds }).view.networkPin n =
      (ofDraft { draft with dependencies := es }).view.networkPin n := by
  have hformats : draft.format = .keyed ∨ draft.format = .listed := by
    cases draft.format <;> simp
  rcases hformats with hformat | hformat
  · rw [ofDraft_eq_of_spread h hsame hformat]
  · have hstored : List.Forall₂ (Spread networks others) (ds.map Listed.stored)
        (es.map Listed.stored) := by
      rw [List.forall₂_map_left_iff, List.forall₂_map_right_iff]
      exact h.imp fun _ _ => Listed.spread_stored
    have hdependencies (ds : List Dependency) :
        (ofDraft { draft with dependencies := ds }).view.dependencies = ds.map Listed.stored :=
      dependencies_ofDraft_of_listed hformat
    rw [View.networkPin, View.networkPin, View.executable, View.executable, hdependencies,
      hdependencies, body_ofDraft, body_ofDraft, Executable.addresses_congr hstored hsame]

/-- Listed documents that differ in their dependencies have one canonical form exactly if the
dependencies are the same up to the order of the networks. -/
theorem canonicalText_eq_iff_of_listed (hformat : draft.format = .listed)
    (pins : List NetworkPin) :
    ((ofDraft { draft with dependencies := ds }).setNetworkPins pins).canonicalText =
        ((ofDraft { draft with dependencies := es }).setNetworkPins pins).canonicalText ↔
      List.Forall₂ (fun d e => (Listed.stored d).Same (Listed.stored e)) ds es := by
  have hdependencies (ds : List Dependency) :
      ((ofDraft { draft with dependencies := ds }).setNetworkPins pins).view.dependencies =
        ds.map Listed.stored :=
    (dependencies_setNetworkPins _ pins).trans (dependencies_ofDraft_of_listed hformat)
  have hstored : List.Forall₂ (fun d e => (Listed.stored d).Same (Listed.stored e)) ds es ↔
      List.Forall₂ Dependency.Same (ds.map Listed.stored) (es.map Listed.stored) := by
    rw [List.forall₂_map_left_iff, List.forall₂_map_right_iff]
  rw [canonicalText_eq_iff, hstored, ← hdependencies ds, ← hdependencies es]
  refine ⟨View.Same.dependencies, fun h => ?_⟩
  -- the documents differ in nothing else, and each is the same as itself
  have hself : ((ofDraft { draft with dependencies := ds }).setNetworkPins pins).view.Same
      ((ofDraft { draft with dependencies := ds }).setNetworkPins pins).view :=
    canonicalText_eq_iff.1 rfl
  obtain ⟨format, kind, interface, messages, body, dependencies, parameters, output⟩ := draft
  cases hformat
  exact { hself with dependencies := h }

end Template

end Interaction
