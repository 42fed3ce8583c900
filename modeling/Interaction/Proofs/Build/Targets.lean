import Interaction.Proofs.Build.Dependencies
import Interaction.Proofs.Pinning.Repeated
import Interaction.Proofs.Template.Spread

/-!
# The networks that are built for

For a build the networks of its configuration are a set: which of them are pinned, what code they
run and whether the build succeeds does not depend on their order or on how often they are named.
There is one exception. A contract that the registry does not know is placed once for each time a
network is named, and a listed template keeps all of these placements, so that its id counts them.
-/

namespace Interaction

open Source

namespace Builder

/-- The builder with other networks to build for. -/
def onNetworks (builder : Builder) (networks : List String) : Builder :=
  { builder with config := { builder.config with networks := networks } }

/-- The dependency on an import, with the pins that have been computed. -/
def dependencyOn (builder : Builder) (pinned : Table (Table PinRecord)) (i : Import) :
    Dependency where
  contract := i.name
  placements := ((builder.registry.resolveAll i builder.config.networks).toOption.getD []).map
    (placement pinned)

/-- Whether it does not show how often networks are named: a keyed template keeps each network once,
the same lists up to their order name each network as often, and a contract that the registry knows
is placed where the registry has it. -/
def CountsAlike (builder : Builder) (source : String) (networks others : List String) : Prop :=
  builder.config.format = .keyed ∨ networks.Perm others ∨
    ∀ i ∈ importsOf source, builder.registry.contains i.name = true

variable {builder : Builder} {conditions : Conditions} {session now after : Session}
  {source : String} {earlier : Option Template} {networks others : List String}
  {imports : List Import} {draft : Draft} {ds : List Dependency} {t : Template} {i : Import}
  {places : List (List Resolved)} {pinned : Table (Table PinRecord)}

/-! ### Where imports lead -/

theorem rootsOn_append (n : String) (places more : List Resolved) :
    rootsOn n (places ++ more) = rootsOn n places ++ rootsOn n more := by
  rw [rootsOn, List.filter_append, List.map_append]
  rfl

/-- Of a contract that is placed on given networks, one contract is to be pinned on each of them,
once or again and again. -/
theorem sameRuns_rootsOn_placed (hsame : ∀ n, n ∈ networks ↔ n ∈ others) (contract address : String)
    (n : String) :
    SameRuns (rootsOn n (networks.map fun network => ⟨contract, network, address, none⟩))
      (rootsOn n (others.map fun network => ⟨contract, network, address, none⟩)) := by
  have hroot (networks : List String) : ∀ root ∈ rootsOn n (networks.map fun network =>
      ⟨contract, network, address, none⟩), root = ⟨contract, address⟩ := by
    intro root hroot
    obtain ⟨place, hplace, -, rfl⟩ := exists_of_mem_rootsOn hroot
    obtain ⟨network, -, rfl⟩ := List.mem_map.1 hplace
    rfl
  have hnil (networks : List String) : rootsOn n (networks.map fun network =>
      ⟨contract, network, address, none⟩) = [] ↔ n ∉ networks := by
    simp [rootsOn, List.filter_eq_nil_iff, List.forall_mem_ne']
  exact .of_forall_eq (hroot networks) (hroot others) (by rw [hnil, hnil, hsame])

/-- Whether an import can be placed does not depend on the networks, and how often a network is
named only repeats what is to be pinned there. -/
theorem exists_resolveAll_onNetworks {found : List Resolved}
    (h : builder.registry.resolveAll i networks = .ok found)
    (hsame : ∀ n, n ∈ networks ↔ n ∈ others) :
    ∃ found', builder.registry.resolveAll i others = .ok found' ∧
      ∀ n, SameRuns (rootsOn n found) (rootsOn n found') := by
  cases hknown : builder.registry.deployments? i.name with
  | some known =>
      rw [Registry.resolveAll_of_known hknown] at h ⊢
      cases h
      exact ⟨_, rfl, fun n => .refl _⟩
  | none =>
      cases haddress : i.address with
      | none =>
          rw [Registry.resolveAll_of_bare hknown haddress] at h
          cases h
      | some address =>
          rw [Registry.resolveAll_of_unknown hknown haddress] at h ⊢
          cases h
          exact ⟨_, rfl, sameRuns_rootsOn_placed hsame _ _⟩

theorem IsResolved.exists_onNetworks (h : (builder.onNetworks networks).IsResolved imports places)
    (hsame : ∀ n, n ∈ networks ↔ n ∈ others) :
    ∃ places', (builder.onNetworks others).IsResolved imports places' ∧
      ∀ n, SameRuns (rootsOn n places.flatten) (rootsOn n places'.flatten) := by
  induction h with
  | nil => exact ⟨[], .nil, fun n => .nil⟩
  | @cons i found _ _ hfound _ ih =>
      obtain ⟨places', hplaces', hruns⟩ := ih
      obtain ⟨found', hfound', hrun⟩ := exists_resolveAll_onNetworks hfound hsame
      refine ⟨found' :: places', .cons hfound' hplaces', fun n => ?_⟩
      rw [List.flatten_cons, List.flatten_cons, rootsOn_append, rootsOn_append]
      exact (hrun n).append (hruns n)

/-- The dependencies of a build are made once its networks have been pinned. -/
theorem run_dependencies_eq_ok_iff :
    (builder.dependencies conditions now imports).run now = (.ok ds, after) ↔
      now.context.isOver = false ∧ ∃ places, builder.IsResolved imports places ∧
        ∃ pinned, (builder.pinNetworks conditions now (builder.workload places.flatten)).run now =
            (.ok pinned, after) ∧
          ds = imports.map (builder.dependencyOn (Table.ofList pinned)) := by
  have hzip {places : List (List Resolved)} (hplaces : builder.IsResolved imports places)
      (pinned : Table (Table PinRecord)) :
      (imports.zip places).map (fun found =>
        (⟨found.1.name, found.2.map (placement pinned)⟩ : Dependency)) =
      imports.map (builder.dependencyOn pinned) := by
    induction hplaces with
    | nil => rfl
    | @cons i found _ _ hfound _ ih =>
        rw [List.zip_cons_cons, List.map_cons, List.map_cons, ih, dependencyOn, hfound]
        rfl
  have hresolved {places : List (List Resolved)} :
      builder.IsResolved imports places ↔
        (imports.mapM fun i => builder.registry.resolveAll i builder.config.networks) =
          .ok places := mapM_eq_ok_iff.symm
  rw [dependencies]
  split
  next hover => simp [Course.run, hover]
  next hover =>
    split
    next failure hfailure => simp [Course.run, hresolved, hfailure]
    next places hplaces =>
      rw [Course.run_map]
      simp only [hresolved, hplaces, Except.ok.injEq, exists_eq_left', Prod.mk.injEq,
        map_eq_ok_iff]
      constructor
      · rintro ⟨⟨pinned, hpinned, rfl⟩, rfl⟩
        exact ⟨eq_false_of_ne_true hover, pinned, Prod.ext hpinned rfl,
          hzip (hresolved.2 hplaces) _⟩
      · rintro ⟨-, pinned, hpinned, rfl⟩
        rw [hpinned]
        exact ⟨⟨pinned, rfl, hzip (hresolved.2 hplaces) _⟩, rfl⟩

theorem exists_dependencies_onNetworks
    (h : ((builder.onNetworks networks).dependencies conditions now imports).run now =
      (.ok ds, after)) (hsame : ∀ n, n ∈ networks ↔ n ∈ others) :
    ∃ pinned, (∀ i ∈ imports, ∃ found, builder.registry.resolveAll i networks = .ok found) ∧
      ds = imports.map ((builder.onNetworks networks).dependencyOn pinned) ∧
      ((builder.onNetworks others).dependencies conditions now imports).run now =
        (.ok (imports.map ((builder.onNetworks others).dependencyOn pinned)), after) := by
  obtain ⟨hover, places, hplaces, pinned, hpinned, hds⟩ := run_dependencies_eq_ok_iff.1 h
  obtain ⟨places', hplaces', hruns⟩ := hplaces.exists_onNetworks hsame
  have hresolved : ∀ i ∈ imports, ∃ found, builder.registry.resolveAll i networks = .ok found := by
    intro i hi
    obtain ⟨found, -, hfound⟩ := exists_of_mem_left hplaces hi
    exact ⟨found, hfound⟩
  refine ⟨Table.ofList pinned, hresolved, hds, run_dependencies_eq_ok_iff.2
    ⟨hover, places', hplaces', pinned, ?_, rfl⟩⟩
  have hcourse : builder.pinNetworks conditions now (builder.workload places.flatten) =
      builder.pinNetworks conditions now (builder.workload places'.flatten) :=
    pinNetworks_congr hruns
  exact (congrArg (Course.run · now) hcourse).symm.trans hpinned

/-- A dependency is placed where the registry has it, or in one way on each network. -/
theorem spread_dependencyOn (pinned : Table (Table PinRecord)) (i : Import) :
    Dependency.Spread networks others ((builder.onNetworks networks).dependencyOn pinned i)
      ((builder.onNetworks others).dependencyOn pinned i) := by
  cases hknown : builder.registry.deployments? i.name with
  | some known =>
      have hsame : (builder.onNetworks networks).dependencyOn pinned i =
          (builder.onNetworks others).dependencyOn pinned i := by
        simp only [dependencyOn, onNetworks, Registry.resolveAll_of_known hknown]
      rw [hsame]
      exact .fixed _
  | none =>
      cases haddress : i.address with
      | none =>
          have hsame : (builder.onNetworks networks).dependencyOn pinned i =
              (builder.onNetworks others).dependencyOn pinned i := by
            simp only [dependencyOn, onNetworks, Registry.resolveAll_of_bare hknown haddress]
            rfl
          rw [hsame]
          exact .fixed _
      | some address =>
          simp only [dependencyOn, onNetworks, Registry.resolveAll_of_unknown hknown haddress]
          simp only [Except.toOption, Option.getD_some, List.map_map]
          exact .placed i.name _ fun n => rfl

/-- The dependencies on an import that is built for two lists of networks are the same, up to the
order of the networks, if the registry knows the contract or the lists are the same up to their
order, and in no other case. -/
theorem same_dependencyOn_iff (pinned : Table (Table PinRecord)) {found : List Resolved}
    (h : builder.registry.resolveAll i networks = .ok found) :
    (Listed.stored ((builder.onNetworks networks).dependencyOn pinned i)).Same
        (Listed.stored ((builder.onNetworks others).dependencyOn pinned i)) ↔
      networks.Perm others ∨ builder.registry.contains i.name = true := by
  rcases Registry.resolveAll_eq_ok h with ⟨known, hknown, -⟩ | ⟨hnone, address, haddress, -⟩
  · have hcontains : builder.registry.contains i.name = true := Table.contains_of_get? hknown
    refine iff_of_true ?_ (.inr hcontains)
    simp only [dependencyOn, onNetworks, Registry.resolveAll_of_known hknown]
    exact .refl _
  · have hcontains : ¬ builder.registry.contains i.name = true := by
      intro hcontains
      obtain ⟨known, hknown⟩ := Option.isSome_iff_exists.1 hcontains
      cases hnone.symm.trans hknown
    have hstored (networks : List String) :
        Listed.stored ((builder.onNetworks networks).dependencyOn pinned i) =
          ⟨i.name, networks.map fun network =>
            (Listed.Deployment.ofPlacement (placement pinned
              ⟨i.name, network, Address.normalize address, none⟩)).toPlacement⟩ := by
      simp only [dependencyOn, onNetworks, Registry.resolveAll_of_unknown hnone haddress,
        Except.toOption, Option.getD_some, Listed.stored, List.map_map, Function.comp_def]
    rw [hstored, hstored, or_iff_left hcontains]
    exact Dependency.same_map_iff fun n => (Listed.Deployment.ofPlacement_place _).1

/-! ### Builds for the same networks -/

/-- The first import of each name is known if all of them are. -/
theorem forall_contains_distinct (builder : Builder) (imports : List Import) :
    (∀ i ∈ Import.distinct imports, builder.registry.contains i.name = true) ↔
      ∀ i ∈ imports, builder.registry.contains i.name = true := by
  have hmap (imports : List Import) :
      (∀ i ∈ imports, builder.registry.contains i.name = true) ↔
        ∀ name ∈ imports.map Import.name, builder.registry.contains name = true := by
    rw [List.forall_mem_map]
  rw [hmap, hmap, (Import.keepsFirst_distinct imports).names]
  simp only [List.mem_eraseDups]

theorem finish_eq_ok_iff : builder.finish session draft = .ok t ↔
    session.context.isOver = false ∧ ∃ pins,
      (Template.ofDraft draft).view.allNetworkPins builder.config.networks = .ok pins ∧
        t = ((Template.ofDraft draft).setNetworkPins pins).sealed := by
  have hcheck : session.check = .ok () ↔ session.context.isOver = false := by
    rw [Session.check, Context.check]
    cases session.context.isOver <;> simp
  simp only [finish, bind_eq_ok_iff, hcheck]
  constructor
  · rintro ⟨pins, hpins, ⟨⟩, hover, ht⟩
    exact ⟨hover, pins, hpins, (Except.ok.inj ht).symm⟩
  · rintro ⟨hover, pins, hpins, rfl⟩
    exact ⟨pins, hpins, (), hover, rfl⟩

/-- A build that succeeds for some networks succeeds for another list of them, and the templates
have one canonical form if none of their contracts is placed once for each name in the lists. -/
theorem exists_build_onNetworks (hsame : ∀ n, n ∈ networks ↔ n ∈ others)
    (h : ((builder.onNetworks networks).build conditions session source earlier).1 = .ok t) :
    ∃ t', ((builder.onNetworks others).build conditions session source earlier).1 = .ok t' ∧
      (t.canonicalText = t'.canonicalText ↔ builder.CountsAlike source networks others) := by
  obtain ⟨imports, draft, ds, after, hprepare, hdependencies, hfinish⟩ := build_eq_ok h
  obtain ⟨pinned, hresolved, rfl, hothers⟩ := exists_dependencies_onNetworks hdependencies hsame
  obtain ⟨hover, pins, hpins, rfl⟩ := finish_eq_ok_iff.1 hfinish
  have hspread : List.Forall₂ (Dependency.Spread networks others)
      (imports.map ((builder.onNetworks networks).dependencyOn pinned))
      (imports.map ((builder.onNetworks others).dependencyOn pinned)) := by
    rw [List.forall₂_map_left_iff, List.forall₂_map_right_iff, List.forall₂_same]
    exact fun i _ => spread_dependencyOn pinned i
  have hpins' := View.allNetworkPins_congr (Template.networkPin_eq_of_spread hspread hsame) hsame
    hpins
  have hbuild : (builder.onNetworks others).build conditions session source earlier = _ :=
    build_of_run hprepare hothers (finish_eq_ok_iff.2 ⟨hover, pins, hpins', rfl⟩)
  refine ⟨_, by rw [hbuild], ?_⟩
  rw [Template.sealed, Template.sealed, Template.canonicalText_setId, Template.canonicalText_setId,
    CountsAlike]
  have hformat : draft.format = builder.config.format := format_of_prepare hprepare
  cases hkind : builder.config.format with
  | keyed =>
      rw [Template.ofDraft_eq_of_spread hspread hsame (hformat.trans hkind)]
      exact iff_of_true rfl (.inl rfl)
  | listed =>
      have hlisted : Format.listed ≠ .keyed := by decide
      rw [Template.canonicalText_eq_iff_of_listed (hformat.trans hkind), List.forall₂_map_left_iff,
        List.forall₂_map_right_iff, List.forall₂_same, or_iff_right hlisted,
        ← forall_contains_distinct, ← imports_of_prepare hprepare]
      by_cases hperm : networks.Perm others
      · refine iff_of_true (fun i hi => ?_) (.inl hperm)
        obtain ⟨found, hfound⟩ := hresolved i hi
        exact (same_dependencyOn_iff pinned hfound).2 (.inl hperm)
      · rw [or_iff_right hperm]
        refine forall₂_congr fun i hi => ?_
        obtain ⟨found, hfound⟩ := hresolved i hi
        rw [same_dependencyOn_iff pinned hfound, or_iff_right hperm]

/-- For a build its networks are a set, whatever order they are given in and however often: it
succeeds for both lists or for neither, and then the templates have one canonical form, and one id,
except that a listed template places a contract that the registry does not know once for each time
a network is named. -/
theorem build_onNetworks (hsame : ∀ n, n ∈ networks ↔ n ∈ others) :
    ((∃ t, ((builder.onNetworks networks).build conditions session source earlier).1 = .ok t) ↔
      ∃ t, ((builder.onNetworks others).build conditions session source earlier).1 = .ok t) ∧
    ∀ t t', ((builder.onNetworks networks).build conditions session source earlier).1 = .ok t →
      ((builder.onNetworks others).build conditions session source earlier).1 = .ok t' →
      (t.canonicalText = t'.canonicalText ↔ builder.CountsAlike source networks others) ∧
      (builder.CountsAlike source networks others → t.id = t'.id) := by
  refine ⟨⟨?_, ?_⟩, ?_⟩
  · rintro ⟨t, ht⟩
    obtain ⟨t', ht', -⟩ := exists_build_onNetworks hsame ht
    exact ⟨t', ht'⟩
  · rintro ⟨t, ht⟩
    obtain ⟨t', ht', -⟩ := exists_build_onNetworks (fun n => (hsame n).symm) ht
    exact ⟨t', ht'⟩
  · intro t t' ht ht'
    obtain ⟨t'', ht'', hcanonical⟩ := exists_build_onNetworks hsame ht
    cases ht'.symm.trans ht''
    refine ⟨hcanonical, fun halike => ?_⟩
    have hid := beq_iff_eq.1 (fulfils_of_build ht).sealed
    have hid' := beq_iff_eq.1 (fulfils_of_build ht').sealed
    rw [← hid, ← hid', Template.computeId, Template.computeId, hcanonical.2 halike]

/-- A core contract is built for two networks, one of which is named twice. -/
theorem build_onNetworks_twice : ∃ t t',
    ((twice.onNetworks ["testnet", "mainnet", "testnet"]).build {} {} importing none).1 = .ok t ∧
    ((twice.onNetworks ["mainnet", "testnet"]).build {} {} importing none).1 = .ok t' ∧
    t.canonicalText = t'.canonicalText ∧ t.id = t'.id := by
  have hsame : ∀ n, n ∈ ["testnet", "mainnet", "testnet"] ↔ n ∈ ["mainnet", "testnet"] := by
    intro n
    simp only [List.mem_cons, List.not_mem_nil, or_false]
    tauto
  have hknown : twice.CountsAlike importing ["testnet", "mainnet", "testnet"]
      ["mainnet", "testnet"] := by
    have himports : importsOf importing = [⟨"FlowToken", none⟩] := by cbv
    refine .inr (.inr ?_)
    rw [himports, List.forall_mem_singleton]
    decide +kernel
  obtain ⟨hiff, hall⟩ := @build_onNetworks twice {} {} importing none _ _ hsame
  obtain ⟨t, ht⟩ := exists_build_importing
  obtain ⟨t', ht'⟩ := hiff.1 ⟨t, ht⟩
  obtain ⟨hcanonical, hid⟩ := hall t t' ht ht'
  exact ⟨t, t', ht, ht', hcanonical.2 hknown, hid hknown⟩

/-- A source that imports a contract that no registry has. -/
def importingCustom : String := "import Custom from 0x01\ntransaction \x7b\x7d\n"

/-- What is made of the source. -/
def customDraft : Draft where
  kind := some .transaction
  body := "import \"Custom\"\ntransaction \x7b\x7d\n"

/-- A contract that the registry does not know is placed on one network twice, and the ids are the
digests of two texts, so they differ unless these texts collide. The digests are not evaluated: each
has several blocks, and a block alone takes the kernel long. -/
theorem canonicalText_ne_of_repeated : ∃ t t',
    ((twice.onNetworks ["testnet"]).build {} {} importingCustom none).1 = .ok t ∧
    ((twice.onNetworks ["testnet", "testnet"]).build {} {} importingCustom none).1 = .ok t' ∧
    t.id = Digest.ofText t.canonicalText ∧ t'.id = Digest.ofText t'.canonicalText ∧
    t.canonicalText ≠ t'.canonicalText := by
  have himports : importsOf importingCustom = [⟨"Custom", some "0x01"⟩] := by cbv
  have hprepare : (twice.onNetworks ["testnet"]).prepare {} importingCustom none =
      .ok ([⟨"Custom", some "0x01"⟩], customDraft) := by cbv
  have hdependencies : ((twice.onNetworks ["testnet"]).dependencies {} {}
      [⟨"Custom", some "0x01"⟩]).run {} =
        (.ok [⟨"Custom", [⟨"testnet", "0x0000000000000001", none⟩]⟩], {}) := by cbv
  have hcode : (Template.ofDraft { customDraft with dependencies :=
      [⟨"Custom", [⟨"testnet", "0x0000000000000001", none⟩]⟩] }).view.executable "testnet" =
        .ok "import Custom from 0x0000000000000001\ntransaction \x7b\x7d\n" := by cbv
  obtain ⟨t, ht⟩ : ∃ t, (twice.onNetworks ["testnet"]).finish {} { customDraft with
      dependencies := [⟨"Custom", [⟨"testnet", "0x0000000000000001", none⟩]⟩] } = .ok t :=
    exists_finish rfl (List.forall_mem_singleton.2 ⟨_, hcode⟩)
  have hbuild : ((twice.onNetworks ["testnet"]).build {} {} importingCustom none).1 = .ok t := by
    rw [build_of_run hprepare hdependencies ht]
  have hsame : ∀ n, n ∈ ["testnet"] ↔ n ∈ ["testnet", "testnet"] := by simp
  obtain ⟨t', ht', hcanonical⟩ := exists_build_onNetworks hsame hbuild
  refine ⟨t, t', hbuild, ht', (beq_iff_eq.1 (fulfils_of_build hbuild).sealed).symm,
    (beq_iff_eq.1 (fulfils_of_build ht').sealed).symm, fun heq => ?_⟩
  have hcounts := hcanonical.1 heq
  rw [CountsAlike, himports, List.forall_mem_singleton] at hcounts
  revert hcounts
  decide +kernel

end Builder

end Interaction
