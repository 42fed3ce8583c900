import Interaction.Proofs.Sorting
import Interaction.Proofs.Traversal
import Interaction.Template.Executable

/-!
# The network pins of a document

Network pins are a matter of the body and the dependencies of a document. If they can be computed
for some networks, every dependency is placed on each of them, there is one pin for each, in order,
and each is the one that belongs to its network.
-/

namespace Interaction

namespace NetworkPin

variable {pins : List NetworkPin}

theorem sort_of_pairwise (h : (pins.map network).Pairwise (· < ·)) : sort pins = pins := by
  refine mergeSort_name_of_pairwise ?_
  exact (List.pairwise_map.1 h).imp fun hlt => Std.le_of_lt hlt

theorem mem_of_mem_dropRepeated {pin : NetworkPin} (h : pin ∈ dropRepeated pins) : pin ∈ pins := by
  fun_induction dropRepeated pins with
  | case1 => exact h
  | case2 => exact h
  | case3 first next more hsame ih =>
      rcases List.mem_cons.1 (ih h) with rfl | hmore
      · exact .head _
      · exact .tail _ (.tail _ hmore)
  | case4 first next more hother ih =>
      rcases List.mem_cons.1 h with rfl | hmore
      · exact .head _
      · exact .tail _ (ih hmore)

/-- No network is lost. -/
theorem exists_mem_dropRepeated {pin : NetworkPin} (h : pin ∈ pins) :
    ∃ kept ∈ dropRepeated pins, kept.network = pin.network := by
  fun_induction dropRepeated pins generalizing pin with
  | case1 => cases h
  | case2 => exact ⟨pin, h, rfl⟩
  | case3 first next more hsame ih =>
      rcases List.mem_cons.1 h with rfl | hrest
      · exact ih (.head _)
      · rcases List.mem_cons.1 hrest with rfl | hmore
        · rw [← hsame]
          exact ih (.head _)
        · exact ih (.tail _ hmore)
  | case4 first next more hother ih =>
      rcases List.mem_cons.1 h with rfl | hrest
      · exact ⟨pin, .head _, rfl⟩
      · obtain ⟨kept, hkept, hnetwork⟩ := ih hrest
        exact ⟨kept, .tail _ hkept, hnetwork⟩

/-- Of pins in order, one of each network is left. -/
theorem pairwise_dropRepeated (h : pins.Pairwise fun a b => a.network ≤ b.network) :
    ((dropRepeated pins).map network).Pairwise (· < ·) := by
  fun_induction dropRepeated pins with
  | case1 => exact .nil
  | case2 => exact List.pairwise_singleton _ _
  | case3 first next more hsame ih =>
      have ⟨hfirst, hrest⟩ := List.pairwise_cons.1 h
      have ⟨hnext, hmore⟩ := List.pairwise_cons.1 hrest
      refine ih (List.pairwise_cons.2 ⟨?_, hmore⟩)
      exact fun pin hpin => hfirst pin (.tail _ hpin)
  | case4 first next more hother ih =>
      have ⟨hfirst, hrest⟩ := List.pairwise_cons.1 h
      have ⟨hnext, hmore⟩ := List.pairwise_cons.1 hrest
      have hlt : first.network < next.network :=
        Table.lt_of_not_lt_of_ne (fun hgt => hother (String.le_antisymm (hfirst next (.head _))
          (Std.le_of_lt hgt))) fun heq => hother heq.symm
      rw [List.map_cons, List.pairwise_cons]
      refine ⟨?_, ih hrest⟩
      intro n hn
      obtain ⟨pin, hpin, rfl⟩ := List.mem_map.1 hn
      rcases List.mem_cons.1 (mem_of_mem_dropRepeated hpin) with rfl | hmem
      · exact hlt
      · exact Std.lt_of_lt_of_le hlt (hnext pin hmem)

end NetworkPin

namespace View

variable {view other : View} {networks : List String} {n : String} {pins : List NetworkPin}

/-- A body can be bound to a network only if every dependency is placed there. -/
theorem on?_of_addresses {dependencies : List Dependency} {known : Table String}
    (h : Executable.addresses dependencies n = .ok known) :
    ∀ d ∈ dependencies, (d.on? n).isSome = true := by
  unfold Executable.addresses at h
  generalize (∅ : Table String) = start at h
  induction dependencies generalizing start with
  | nil => nofun
  | cons first more ih =>
      rw [List.foldlM_cons] at h
      cases hfirst : Executable.bind n start first with
      | error failure =>
          rw [hfirst] at h
          cases h
      | ok next =>
          rw [hfirst] at h
          intro d hd
          rcases List.mem_cons.1 hd with rfl | hd
          · unfold Executable.bind at hfirst
            split at hfirst
            next placement hplaced => rw [hplaced, Option.isSome_some]
            next => cases hfirst
          · exact ih next h d hd

/-- The addresses of all dependencies are known where all are placed. -/
theorem exists_addresses {dependencies : List Dependency}
    (h : ∀ d ∈ dependencies, (d.on? n).isSome = true) :
    ∃ known, Executable.addresses dependencies n = .ok known := by
  unfold Executable.addresses
  generalize (∅ : Table String) = start
  induction dependencies generalizing start with
  | nil => exact ⟨start, rfl⟩
  | cons d more ih =>
      obtain ⟨placement, hplacement⟩ := Option.isSome_iff_exists.1 (h d (.head _))
      have hfirst : Executable.bind n start d =
          .ok (start.insert d.contract placement.address) := by
        rw [Executable.bind, hplacement]
      rw [List.foldlM_cons, hfirst]
      exact ih (fun other hother => h other (.tail _ hother)) _

theorem networkPin_eq_ok {pin : NetworkPin} (h : view.networkPin n = .ok pin) :
    pin.network = n ∧ ∀ d ∈ view.dependencies, (d.on? n).isSome = true := by
  unfold networkPin at h
  cases hcode : view.executable n with
  | error failure =>
      rw [hcode] at h
      cases h
  | ok code =>
      rw [hcode] at h
      simp only [executable, bind_eq_ok_iff] at hcode
      obtain ⟨known, hknown, -⟩ := hcode
      cases h
      exact ⟨rfl, on?_of_addresses hknown⟩

/-- Only the body and the dependencies matter to a network pin. -/
theorem networkPin_congr (hbody : view.body = other.body)
    (hdependencies : view.dependencies = other.dependencies) (n : String) :
    view.networkPin n = other.networkPin n := by
  rw [networkPin, networkPin, executable, executable, hbody, hdependencies]

theorem verifyNetworkPin_of_networkPin {pin : NetworkPin}
    (h : view.networkPin pin.network = .ok pin) : view.verifyNetworkPin pin = .ok true := by
  rw [verifyNetworkPin, h, Except.map, beq_self_eq_true]

/-- The pins of several networks can be computed if there is code for each of them. -/
theorem exists_allNetworkPins (h : ∀ n ∈ networks, ∃ code, view.executable n = .ok code) :
    ∃ pins, view.allNetworkPins networks = .ok pins := by
  have hall : ∀ n ∈ networks, ∃ pin, view.networkPin n = .ok pin := by
    intro n hn
    obtain ⟨code, hcode⟩ := h n hn
    exact ⟨⟨n, Digest.ofText code⟩, by rw [networkPin, hcode, Except.map]⟩
  obtain ⟨computed, hcomputed⟩ := exists_forall₂ hall
  exact ⟨_, bind_eq_ok_iff.2 ⟨computed, mapM_eq_ok_iff.2 hcomputed, rfl⟩⟩

/-- The pins of several networks: one for each of them, in order, and the one that belongs
there. -/
structure PinsOf (view : View) (networks : List String) (pins : List NetworkPin) : Prop where
  ordered : (pins.map NetworkPin.network).Pairwise (· < ·)
  named : ∀ n, n ∈ pins.map NetworkPin.network ↔ n ∈ networks
  right : ∀ pin ∈ pins, view.networkPin pin.network = .ok pin

theorem pinsOf_of_allNetworkPins (h : view.allNetworkPins networks = .ok pins) :
    view.PinsOf networks pins := by
  simp only [allNetworkPins, bind_eq_ok_iff] at h
  obtain ⟨computed, hcomputed, hpins⟩ := h
  cases hpins
  have hall := mapM_eq_ok_iff.1 hcomputed
  have hmem : ∀ pin, pin ∈ NetworkPin.sort computed ↔ pin ∈ computed := fun pin =>
    List.mem_mergeSort
  have hright : ∀ pin ∈ computed, pin.network ∈ networks ∧
      view.networkPin pin.network = .ok pin := by
    intro pin hpin
    obtain ⟨n, hn, hok⟩ := exists_of_mem_right hall hpin
    rw [(networkPin_eq_ok hok).1]
    exact ⟨hn, hok⟩
  refine ⟨?_, ?_, ?_⟩
  · exact NetworkPin.pairwise_dropRepeated (pairwise_mergeSort_name _ computed)
  · intro n
    constructor
    · intro hn
      obtain ⟨pin, hpin, rfl⟩ := List.mem_map.1 hn
      exact (hright pin ((hmem pin).1 (NetworkPin.mem_of_mem_dropRepeated hpin))).1
    · intro hn
      obtain ⟨pin, hpin, hok⟩ := exists_of_mem_left hall hn
      obtain ⟨kept, hkept, hsame⟩ := NetworkPin.exists_mem_dropRepeated ((hmem pin).2 hpin)
      exact List.mem_map.2 ⟨kept, hkept, hsame.trans (networkPin_eq_ok hok).1⟩
  · intro pin hpin
    exact (hright pin ((hmem pin).1 (NetworkPin.mem_of_mem_dropRepeated hpin))).2

/-- There is only one way to give each network its pin in order. -/
theorem PinsOf.unique {pins' : List NetworkPin} (h : view.PinsOf networks pins)
    (h' : view.PinsOf networks pins') : pins = pins' := by
  have hsub {pins pins' : List NetworkPin} (h : view.PinsOf networks pins)
      (h' : view.PinsOf networks pins') : ∀ pin ∈ pins, pin ∈ pins' := by
    intro pin hpin
    have hnetwork := (h'.named _).2 ((h.named _).1 (List.mem_map_of_mem hpin))
    obtain ⟨other, hother, hsame⟩ := List.mem_map.1 hnetwork
    have hright := h'.right other hother
    rw [hsame, h.right pin hpin, Except.ok.injEq] at hright
    exact hright ▸ hother
  exact eq_of_pairwise_name (List.pairwise_map.1 h.ordered) (List.pairwise_map.1 h'.ordered)
    fun pin => ⟨hsub h h' pin, hsub h' h pin⟩

/-- The pins of several networks are a matter of the set of the networks. -/
theorem allNetworkPins_congr {networks' : List String}
    (hpin : ∀ n, view.networkPin n = other.networkPin n) (hsame : ∀ n, n ∈ networks ↔ n ∈ networks')
    (h : view.allNetworkPins networks = .ok pins) : other.allNetworkPins networks' = .ok pins := by
  have hof := pinsOf_of_allNetworkPins h
  have hother : other.PinsOf networks' pins :=
    ⟨hof.ordered, fun n => (hof.named n).trans (hsame n), fun pin hmem => by
      rw [← hpin, hof.right pin hmem]⟩
  have hall : ∀ n ∈ networks', ∃ pin, other.networkPin n = .ok pin := by
    intro n hn
    obtain ⟨pin, hmem, rfl⟩ := List.mem_map.1 ((hother.named n).2 hn)
    exact ⟨pin, hother.right pin hmem⟩
  obtain ⟨computed, hcomputed⟩ := exists_forall₂ hall
  have hpins : other.allNetworkPins networks' =
      .ok (NetworkPin.dropRepeated (NetworkPin.sort computed)) :=
    bind_eq_ok_iff.2 ⟨computed, mapM_eq_ok_iff.2 hcomputed, rfl⟩
  rw [hpins, hother.unique (pinsOf_of_allNetworkPins hpins)]

end View

end Interaction
