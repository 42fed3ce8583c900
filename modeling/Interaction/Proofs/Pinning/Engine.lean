import Interaction.Proofs.Pinning.Assembly
import Interaction.Proofs.Pinning.Reference
import Mathlib

/-!
# Pinning is the plain recursion

Two passes over a shared cache, with fetches side by side whose answers arrive in any order, come
to the same as pinning each root by plain recursion.
-/

namespace Interaction

namespace Engine

variable {engine : Engine} {P Q : Site → Prop} {conditions : Conditions} {context : Context}
  {roots : List Site} {height : Nat} {cache : Cache} {session : Session}

theorem assembleRoots_spec (hcache : cache.IsSound engine P) :
    Assembly.Extends engine P cache (engine.assembleRoots context roots cache).2 ∧
      ∀ trees, (engine.assembleRoots context roots cache).1 = .ok trees →
        List.Forall₂ (fun root tree => engine.IsPinTree P tree ∧
          tree.site.key engine.network = root.key engine.network) roots trees :=
  Assembly.forEach_spec (fun _ _ _ hcache => Assembly.within_spec _ _ _ hcache) hcache

/-- Roots are assembled that have a pin or a tree the cache covers. -/
theorem assembleRoots_complete (hdistinct : engine.Distinguishes P)
    (hover : context.isOver = false) (hcache : cache.IsSound engine P) {keys : List String}
    (hcovers : cache.Covers engine.network keys)
    (hroots : ∀ root ∈ roots, (cache.pin? (root.key engine.network)).isSome = true ∨
      engine.HasTree P root ∧ root.key engine.network ∈ keys) :
    ∃ trees, (engine.assembleRoots context roots cache).1 = .ok trees := by
  have hstart : Assembly.Extends engine P cache cache := .refl hcache
  refine Assembly.forEach_complete ?_ hstart
  intro root hroot after hafter
  refine ⟨hafter.trans (Assembly.within_spec _ _ _ hafter.isSound).1, ?_⟩
  rcases hroots root hroot with hpinned | ⟨⟨tree, htree, rfl⟩, hkey⟩
  · obtain ⟨tree, htree⟩ := Option.isSome_iff_exists.1 (hafter.pins _ hpinned)
    refine ⟨tree, ?_⟩
    rw [Assembly.assemble, Assembly.within, hover, htree]
    rfl
  · refine Assembly.within_complete hdistinct hover htree hafter.isSound (hafter.covers hcovers)
      hkey ⟨.nil, by simp, by simp⟩ ?_
    rw [List.length_nil, Nat.zero_add]

/-- The roots without a pin, from which discovery starts. -/
def unpinned (engine : Engine) (cache : Cache) (roots : List Site) : List Site :=
  (roots.map Site.normalized).filter fun site => (cache.pin? (site.key engine.network)).isNone

theorem exists_of_mem_unpinned {site : Site} (h : site ∈ engine.unpinned cache roots) :
    ∃ root ∈ roots, root.normalized = site :=
  List.mem_map.1 (List.mem_filter.1 h).1

/-- A root has a pin, or discovery starts from it. -/
theorem pin?_or_mem_unpinned (engine : Engine) (cache : Cache) {root : Site} (h : root ∈ roots) :
    (∃ tree, cache.pin? (root.normalized.key engine.network) = some tree) ∨
      root.normalized ∈ engine.unpinned cache roots := by
  cases hpin : cache.pin? (root.normalized.key engine.network) with
  | some tree => exact .inl ⟨tree, rfl⟩
  | none =>
      right
      rw [unpinned, List.mem_filter, hpin]
      exact ⟨List.mem_map_of_mem h, rfl⟩

/-- Whatever happens while contracts are pinned and beside it, the cache stays sound, and the
records that come back are those of pin trees of the roots, in order. -/
theorem computePinsCourse_spec (hhereditary : engine.Hereditary P)
    (hcache : cache.IsSound engine P) (hroots : ∀ root ∈ roots, P root.normalized)
    {result : Except Failure (List PinRecord)} {after : Cache}
    (h : (engine.computePinsCourse conditions roots height cache session).Reaches
      (result, after)) :
    after.IsSound engine P ∧ ∀ records, result = .ok records →
      ∃ trees, records = trees.map (PinRecord.ofTree height) ∧
        List.Forall₂ (fun root tree => engine.IsPinTree P tree ∧
          tree.site.key engine.network = root.key engine.network) roots trees := by
  have hunpinned : ∀ site ∈ engine.unpinned cache roots, P site := by
    intro site hsite
    obtain ⟨root, hroot, rfl⟩ := exists_of_mem_unpinned hsite
    exact hroots root hroot
  obtain ⟨⟨discovered, found⟩, later, hdiscover, h⟩ := Course.Reaches.of_andThen h
  have hfound : found.IsSound engine P := isSound_of_reaches hhereditary hcache hunpinned hdiscover
  rcases discovered with failure | ⟨⟩
  · cases h
    exact ⟨hfound, nofun⟩
  · cases h
    obtain ⟨hextends, htrees⟩ : Assembly.Extends engine P found
        (engine.assembleRoots later.context (roots.map Site.normalized) found).2 ∧ _ :=
      assembleRoots_spec hfound
    refine ⟨hextends.isSound, ?_⟩
    intro records hrecords
    obtain ⟨trees, hassemble, rfl⟩ := map_eq_ok_iff.1 hrecords
    refine ⟨trees, rfl, ?_⟩
    have hall := List.forall₂_map_left_iff.1 (htrees trees hassemble)
    exact hall.imp fun root tree h => ⟨h.1, h.2.trans (Site.key_normalized _ root)⟩

/-- What a run comes to alone is among what it can come to in company. -/
theorem reaches_computePins (engine : Engine) (conditions : Conditions) (roots : List Site)
    (height : Nat) (cache : Cache) (session : Session) :
    (engine.computePinsCourse conditions roots height cache session).Reaches
      ((engine.computePins conditions roots height cache session).1,
        (engine.computePins conditions roots height cache session).2.1) := by
  have hreaches := Course.reaches_run
    (engine.computePinsCourse conditions roots height cache session) session
  rwa [run_computePinsCourse] at hreaches

theorem computePins_spec (hhereditary : engine.Hereditary P) (hcache : cache.IsSound engine P)
    (hroots : ∀ root ∈ roots, P root.normalized) :
    (engine.computePins conditions roots height cache session).2.1.IsSound engine P ∧
      ∀ records, (engine.computePins conditions roots height cache session).1 = .ok records →
        ∃ trees, records = trees.map (PinRecord.ofTree height) ∧
          List.Forall₂ (fun root tree => engine.IsPinTree P tree ∧
            tree.site.key engine.network = root.key engine.network) roots trees :=
  computePinsCourse_spec hhereditary hcache hroots (reaches_computePins _ _ _ _ _ _)

/-- Discovery under calm conditions prepares the assembly of roots if the chain answers for all
that they lead to. -/
theorem ready_of_discover (hcalm : conditions.IsCalm) (hdistinct : engine.Distinguishes P)
    (hhereditary : engine.Hereditary P) (hanswers : engine.Answers P Q)
    (hover : session.context.isOver = false) (hcache : cache.IsSound engine P)
    (hroots : ∀ root ∈ roots, Q root.normalized) :
    ∃ after last keys,
      engine.discover conditions (engine.unpinned cache roots) cache session =
        (.ok (), after, last) ∧
      last.context.isOver = false ∧ after.IsSound engine P ∧
      after.Covers engine.network keys ∧
      ∀ root ∈ roots.map Site.normalized, (after.pin? (root.key engine.network)).isSome = true ∨
        Q root ∧ root.key engine.network ∈ keys := by
  have hunpinned : ∀ site ∈ engine.unpinned cache roots, Q site := by
    intro site hsite
    obtain ⟨root, hroot, rfl⟩ := exists_of_mem_unpinned hsite
    exact hroots root hroot
  have hsound : (engine.discover conditions (engine.unpinned cache roots) cache
      session).2.1.IsSound engine P :=
    isSound_of_reaches hhereditary hcache
      (fun site hsite => hanswers.holds site (hunpinned site hsite)) reaches_discoverWithin
  have hdone : (engine.discover conditions (engine.unpinned cache roots) cache session).1 =
      .ok () := discoverWithin_complete hcalm hdistinct hanswers hover hcache hunpinned
  have hcontext : (engine.discover conditions (engine.unpinned cache roots) cache
      session).2.2.context = session.context := context_discoverWithin hcalm
  have hpins : (engine.discover conditions (engine.unpinned cache roots) cache
      session).2.1.pins = cache.pins := pins_discoverWithin
  obtain ⟨keys, hcovers, hkeys⟩ := discover_covers hdone
  refine ⟨_, _, keys, Prod.ext hdone rfl, ?_, hsound, hcovers, ?_⟩
  · rw [hcontext]
    exact hover
  · intro site hsite
    obtain ⟨root, hroot, rfl⟩ := List.mem_map.1 hsite
    rcases pin?_or_mem_unpinned engine cache hroot with ⟨tree, hpin⟩ | hmem
    · left
      rw [Cache.pin?] at hpin ⊢
      rw [hpins, hpin]
      rfl
    · exact .inr ⟨hroots root hroot, hkeys _ hmem⟩

/-- Under calm conditions roots with pin trees are pinned. -/
theorem computePins_complete (hcalm : conditions.IsCalm) (hdistinct : engine.Distinguishes P)
    (hhereditary : engine.Hereditary P) (hover : session.context.isOver = false)
    (hcache : cache.IsSound engine P)
    (hroots : ∀ root ∈ roots, engine.HasTree P root.normalized) :
    ∃ records, (engine.computePins conditions roots height cache session).1 = .ok records := by
  obtain ⟨after, last, keys, hdiscover, hlast, hsound, hcovers, hready⟩ :=
    ready_of_discover hcalm hdistinct hhereditary (answers_hasTree hdistinct hhereditary) hover
      hcache hroots
  obtain ⟨trees, htrees⟩ := assembleRoots_complete hdistinct hlast hsound hcovers hready
  rw [unpinned] at hdiscover
  simp only [computePins, hdiscover]
  split
  next failure final hassemble =>
    rw [hassemble] at htrees
    cases htrees
  next => exact ⟨_, rfl⟩

/-- The records of pinned contracts are those that the plain recursion finds, whatever goes on
beside the pinning. -/
theorem mapM_pinTree_of_reaches (h : engine.OnHex)
    (hroots : ∀ root ∈ roots, Address.isHex root.address = true) {records : List PinRecord}
    {after : Cache} (hrecords : (engine.computePinsCourse conditions roots height {}
      session).Reaches (.ok records, after)) :
    (roots.mapM (engine.pinTree [])).map (List.map (PinRecord.ofTree height)) = some records := by
  have hcanonical : ∀ root ∈ roots, root.normalized.IsCanonical := fun root hroot =>
    Site.isCanonical_normalized (hroots root hroot)
  obtain ⟨trees, rfl, htrees⟩ := (computePinsCourse_spec h.hereditary
    (Cache.isSound_empty engine Site.IsCanonical) hcanonical hrecords).2 records rfl
  have hfound : roots.mapM (engine.pinTree []) = some trees := by
    rw [mapM_eq_some_iff]
    refine forall₂_imp_of_mem htrees ?_
    intro root hroot tree _ hpin
    refine (pinTree_nil_eq_some_iff h (hroots root hroot)).2 ⟨hpin.1, ?_⟩
    have hkey := hpin.2.trans (Site.key_normalized engine.network root).symm
    exact hpin.1.holds.eq_of_key (hcanonical root hroot) hkey
  rw [hfound, Option.map_some]

theorem mapM_pinTree_of_computePins (h : engine.OnHex)
    (hroots : ∀ root ∈ roots, Address.isHex root.address = true) {records : List PinRecord}
    (hrecords : (engine.computePins conditions roots height {} session).1 = .ok records) :
    (roots.mapM (engine.pinTree [])).map (List.map (PinRecord.ofTree height)) = some records := by
  have hreaches := reaches_computePins engine conditions roots height {} session
  rw [hrecords] at hreaches
  exact mapM_pinTree_of_reaches h hroots hreaches

/-- Pinning is the plain recursion: whatever the limit on fetches and the order of their answers,
contracts are pinned exactly if the recursion finds a tree of each, and the records are those of
its trees. -/
theorem computePins_eq_pinTree (h : engine.OnHex)
    (hroots : ∀ root ∈ roots, Address.isHex root.address = true) (hcalm : conditions.IsCalm)
    (hover : session.context.isOver = false) :
    (engine.computePins conditions roots height {} session).1.toOption =
      (roots.mapM (engine.pinTree [])).map (List.map (PinRecord.ofTree height)) := by
  cases hrecords : (engine.computePins conditions roots height {} session).1 with
  | ok records => exact (mapM_pinTree_of_computePins h hroots hrecords).symm
  | error failure =>
      have hnone : roots.mapM (engine.pinTree []) = none := by
        rw [Option.eq_none_iff_forall_ne_some]
        intro trees htrees
        have hall : ∀ root ∈ roots, engine.HasTree Site.IsCanonical root.normalized := by
          intro root hroot
          obtain ⟨tree, -, htree⟩ := exists_of_mem_left (mapM_eq_some_iff.1 htrees) hroot
          exact ⟨tree, (pinTree_nil_eq_some_iff h (hroots root hroot)).1 htree⟩
        obtain ⟨records, hsome⟩ := computePins_complete hcalm (distinguishes_isCanonical engine)
          h.hereditary hover (Cache.isSound_empty engine Site.IsCanonical) hall
        rw [hrecords] at hsome
        cases hsome
      rw [hnone]
      rfl

/-- The code of a contract without imports. -/
def tokenText : String := "access(all) contract Token \x7b\x7d\n"

/-- The code of a contract that imports another, by name and then again from an address. -/
def shopText : String := "import \"Token\"\nimport Token from 0x01\n"

theorem importsOf_tokenText : Source.importsOf tokenText = [] := by cbv

theorem importsOf_shopText :
    Source.importsOf shopText = [⟨"Token", none⟩, ⟨"Token", some "0x01"⟩] := by cbv

/-- A network with a shop and a token, which the registry knows. -/
def shopOn (network token : String) : Engine where
  network := network
  chain := Chain.deploy
    (Chain.deploy { network := network, height := 7 } token "Token" (Utf8.ofText tokenText))
    "0x02" "Shop" (Utf8.ofText shopText)
  registry := Registry.empty.apply (.place "Token" network token)

theorem onHex_shopOn {network token : String} (htoken : Address.isHex token = true)
    (hcodes : ∀ code ∈ (shopOn network token).chain.codes,
      code = Utf8.ofText tokenText ∨ code = Utf8.ofText shopText) :
    (shopOn network token).OnHex where
  built := Registry.Built.apply .empty (.place "Token" network token)
  registry := by
    intro name found hfound
    rw [shopOn, Registry.apply, Registry.entry?_set] at hfound
    split at hfound
    · cases hfound
      exact Address.isHex_normalize htoken
    · cases hfound
  sources := by
    refine Chain.importsHex_of_codes ?_
    intro code hcode
    rcases hcodes code hcode with rfl | rfl
    · refine ⟨_, rfl, ?_⟩
      rw [importsOf_tokenText]
      nofun
    · refine ⟨_, rfl, ?_⟩
      rw [importsOf_shopText]
      intro i hi spelled hspelled
      simp only [List.mem_cons, List.not_mem_nil, or_false] at hi
      rcases hi with rfl | rfl
      · cases hspelled
      · cases hspelled
        decide

theorem computePins_shopOn : (shopOn "testnet" "0x1").OnHex ∧
    ((shopOn "testnet" "0x1").computePins {} [⟨"Shop", "0x2"⟩, ⟨"Token", "01"⟩] 7 {}
        {}).1.toOption =
      (List.mapM ((shopOn "testnet" "0x1").pinTree []) [⟨"Shop", "0x2"⟩, ⟨"Token", "01"⟩]).map
        (List.map (PinRecord.ofTree 7)) := by
  have hex : (shopOn "testnet" "0x1").OnHex := onHex_shopOn (by decide) (by decide)
  exact ⟨hex, computePins_eq_pinTree hex (by decide) ⟨fun _ => rfl, fun _ => rfl⟩ rfl⟩

end Engine

end Interaction
