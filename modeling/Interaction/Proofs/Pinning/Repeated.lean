import Interaction.Build.Dependencies
import Interaction.Proofs.Pinning.Course
import Interaction.Proofs.Repetition
import Interaction.Proofs.Table

/-!
# Contracts that are pinned again

A contract that stands twice in a row among those to be pinned is asked for once: the second time
discovery passes it over, and assembly finds its tree. So the work for a network and what is kept of
it do not depend on how often contracts are repeated on the spot.
-/

namespace Interaction

namespace Engine

variable {engine : Engine} {conditions : Conditions} {sites others : List Site}

/-- A contract that has been met is passed over. -/
theorem Frontier.add_add (network : String) (cache : Cache) (level : Frontier) (site : Site) :
    Frontier.add network cache (Frontier.add network cache level site) site =
      Frontier.add network cache level site := by
  have hmet : (Frontier.add network cache level site).seen.contains (site.key network) = true := by
    rw [Frontier.add]
    split
    next hseen => exact hseen
    next =>
      split <;> simp
  rw [Frontier.add, if_pos hmet]

theorem sortOut_congr (cache : Cache) (seen : List String) (h : SameRuns sites others) :
    engine.sortOut cache seen sites = engine.sortOut cache seen others :=
  h.foldl_eq (Frontier.add_add engine.network cache) _

theorem discoverWithinCourse_congr (levels : Nat) (seen : List String) (cache : Cache)
    (now : Session) (h : SameRuns sites others) :
    engine.discoverWithinCourse conditions levels seen sites cache now =
      engine.discoverWithinCourse conditions levels seen others cache now := by
  cases levels with
  | zero => rfl
  | succ levels =>
      rw [discoverWithinCourse, discoverWithinCourse, sortOut_congr cache seen h]
      simp only [h.eq_nil_iff]

end Engine

namespace Assembly

variable {network : String} {context : Context} {key : String} {cache after : Cache}
  {tree : PinTree} {sites others : List Site} {step : Site → Cache → Except Failure PinTree × Cache}

/-- A tree that has been put together is there. -/
theorem assemble_of_assemble (h : assemble network context key cache = (.ok tree, after)) :
    assemble network context key after = (.ok tree, after) := by
  have hfound (hover : ¬ context.isOver = true) (hpin : after.pin? key = some tree) :
      assemble network context key after = (.ok tree, after) := by
    rw [assemble, within, if_neg hover, hpin]
  rw [assemble, within] at h
  split at h
  next => cases h
  next hover =>
    split at h
    next kept hkept =>
      cases h
      exact hfound hover hkept
    next =>
      split at h
      next => cases h
      next =>
        split at h
        next => cases h
        next contract hcontract =>
          dsimp only at h
          split at h
          next => cases h
          next imports rest himports =>
            cases h
            refine hfound hover ?_
            rw [Cache.pin?, Cache.setPin, Table.get?_insert, if_pos rfl]

/-- Whether a step that has been done finds its tree when it is done again. -/
def Settles (step : Site → Cache → Except Failure PinTree × Cache) : Prop :=
  ∀ site cache tree after, step site cache = (.ok tree, after) → step site after = (.ok tree, after)

theorem settles_assemble (network : String) (context : Context) :
    Settles fun site => assemble network context (site.key network) :=
  fun _ _ _ _ => assemble_of_assemble

/-- What is made of the trees of some sites, one site after the other. -/
def made {β : Type} (f : β → Site × PinTree → β)
    (step : Site → Cache → Except Failure PinTree × Cache) (sites : List Site) (cache : Cache)
    (b : β) : Except Failure β :=
  (forEach step sites cache).1.map fun trees => (sites.zip trees).foldl f b

variable {β : Type} {f : β → Site × PinTree → β}

theorem made_cons_of_error {site : Site} {failure : Failure}
    (h : step site cache = (.error failure, after)) (b : β) :
    made f step (site :: sites) cache b = .error failure := by
  rw [made, forEach, h]
  rfl

theorem made_cons_of_ok {site : Site} (h : step site cache = (.ok tree, after)) (b : β) :
    made f step (site :: sites) cache b = made f step sites after (f b (site, tree)) := by
  rw [made, forEach, h, made]
  dsimp only
  cases forEach step sites after with
  | mk result rest => cases result <;> rfl

/-- A site that is done again changes nothing. -/
theorem made_cons_cons (hf : ∀ b pair, f (f b pair) pair = f b pair)
    (hstep : Settles step) (site : Site) (sites : List Site) (cache : Cache) (b : β) :
    made f step (site :: site :: sites) cache b = made f step (site :: sites) cache b := by
  cases hfirst : step site cache with
  | mk result after =>
      cases result with
      | error failure => rw [made_cons_of_error hfirst, made_cons_of_error hfirst]
      | ok tree =>
          have hagain := hstep _ _ _ _ hfirst
          rw [made_cons_of_ok hfirst, made_cons_of_ok hagain, hf, made_cons_of_ok hfirst]

theorem made_congr (hf : ∀ b pair, f (f b pair) pair = f b pair)
    (hstep : Settles step) (h : SameRuns sites others) (cache : Cache) (b : β) :
    made f step sites cache b = made f step others cache b := by
  induction h generalizing cache b with
  | nil => rfl
  | @cons site sites others _ ih =>
      cases hfirst : step site cache with
      | mk result after =>
          cases result with
          | error failure => rw [made_cons_of_error hfirst, made_cons_of_error hfirst]
          | ok tree => rw [made_cons_of_ok hfirst, made_cons_of_ok hfirst, ih]
  | left _ ih => rw [made_cons_cons hf hstep, ih]
  | right _ ih => rw [made_cons_cons hf hstep, ih]

end Assembly

namespace Builder

variable {builder : Builder} {conditions : Conditions} {now : Session} {network : String}
  {chain : Chain} {roots others : List Site} {places elsewhere : List Resolved}

open Assembly

/-- What is kept for a network is made of the trees of its contracts, one after the other. -/
theorem map_assembleRoots (engine : Engine) (context : Context) (roots : List Site) (height : Nat)
    (cache : Cache) :
    (((engine.assembleRoots context (roots.map Site.normalized) cache).1.map fun trees =>
        trees.map (PinRecord.ofTree height)).map fun records =>
          (engine.network, Table.ofList ((roots.map Site.name).zip records))) =
      (made (fun t pair => t.insert pair.1.name (.ofTree height pair.2))
        (fun site => assemble engine.network context (site.key engine.network))
        (roots.map Site.normalized) cache ∅).map fun kept => (engine.network, kept) := by
  have hkept (trees : List PinTree) :
      Table.ofList ((roots.map Site.name).zip (trees.map (PinRecord.ofTree height))) =
        ((roots.map Site.normalized).zip trees).foldl
          (fun t pair => t.insert pair.1.name (.ofTree height pair.2)) ∅ := by
    rw [Table.ofList, List.zip_map, List.foldl_map, List.zip_map_left, List.foldl_map]
    rfl
  rw [Engine.assembleRoots, made]
  cases (forEach (fun site => assemble engine.network context (site.key engine.network))
    (roots.map Site.normalized) cache).1 with
  | error failure => rfl
  | ok trees =>
      simp only [Except.map, hkept]

theorem pinNetwork_congr (h : SameRuns roots others) :
    builder.pinNetwork conditions now network chain roots =
      builder.pinNetwork conditions now network chain others := by
  have hroots := h.map Site.normalized
  rw [pinNetwork, pinNetwork]
  congr 1
  funext now read
  cases read with
  | error failure => rfl
  | ok height =>
      dsimp only [Engine.computePinsCourse]
      rw [Engine.discoverWithinCourse_congr _ _ _ _ (hroots.filter _), Course.map_andThen,
        Course.map_andThen]
      congr 1
      funext now discovered
      obtain ⟨failure | ⟨⟩, cache⟩ := discovered
      · rfl
      · refine congrArg Course.ended ?_
        refine (map_assembleRoots _ _ _ _ _).trans (Eq.trans ?_ (map_assembleRoots _ _ _ _ _).symm)
        rw [made_congr (fun _ _ => Table.insert_insert _ _ _) (settles_assemble _ _) hroots]

/-- The work for the networks does not depend on how often contracts are repeated on the spot. -/
theorem pinNetworks_congr (h : ∀ n, SameRuns (rootsOn n places) (rootsOn n elsewhere)) :
    builder.pinNetworks conditions now (builder.workload places) =
      builder.pinNetworks conditions now (builder.workload elsewhere) := by
  have hwork (places : List Resolved) :
      (builder.workload places).map (fun item =>
        builder.pinNetwork conditions now item.1 item.2.1 item.2.2) =
      (builder.chains.entries.filter fun entry => rootsOn entry.1 places ≠ []).map fun entry =>
        builder.pinNetwork conditions now entry.1 entry.2 (rootsOn entry.1 places) := by
    rw [workload, List.filter_map, List.map_map]
    rfl
  have hkept (entry : String × Chain) :
      decide (rootsOn entry.1 places ≠ []) = decide (rootsOn entry.1 elsewhere ≠ []) := by
    simp only [ne_eq, (h entry.1).eq_nil_iff]
  rw [pinNetworks, pinNetworks, hwork, hwork]
  simp only [hkept, pinNetwork_congr (h _)]

end Builder

end Interaction
