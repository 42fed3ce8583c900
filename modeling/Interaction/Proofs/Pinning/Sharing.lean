import Interaction.Proofs.Pinning.Commitment
import Interaction.Proofs.Pinning.Trail

/-!
# One cache for many runs

The runs of an engine may share a cache. A run may fail at a fetch, at an import or at a cycle, or
be given up at any moment, and leaves in the cache what it had written by then. What is in the cache
is never wrong for all that: it is what a fresh look at the chain gives, and so a run that succeeds
returns what it would have returned without the earlier ones.
-/

namespace Interaction

variable {engine : Engine} {conditions calm : Conditions} {roots : List Site} {height : Nat}
  {cache later : Cache} {session other : Session}

/-- A cache in which every contract is what fetching and scanning it gives, and every pin the tree
that plain recursion finds, however the address of the contract is spelled. -/
structure Cache.IsFresh (engine : Engine) (cache : Cache) : Prop where
  contracts : ∀ key contract, cache.contract? key = some contract →
    contract.site.key engine.network = key ∧
      ∀ site : Site, Address.isHex site.address = true → site.key engine.network = key →
        engine.inspect site.normalized = .ok contract
  pins : ∀ key tree, cache.pin? key = some tree →
    tree.site.key engine.network = key ∧
      ∀ site : Site, Address.isHex site.address = true → site.key engine.network = key →
        engine.pinTree [] site = some tree

/-- The spellings of a canonical site are those with its key. -/
theorem Site.IsCanonical.eq_normalized {site spelled : Site} {network : String}
    (h : site.IsCanonical) (hspelled : Address.isHex spelled.address = true)
    (hkey : spelled.key network = site.key network) : site = spelled.normalized := by
  have hsame : site.key network = spelled.normalized.key network := by
    rw [Site.key_normalized, hkey]
  exact h.eq_of_key (Site.isCanonical_normalized hspelled) hsame

theorem Cache.IsSound.isFresh (hengine : engine.OnHex)
    (h : cache.IsSound engine Site.IsCanonical) : cache.IsFresh engine where
  contracts := by
    intro key contract hcontract
    obtain ⟨rfl, hcanonical, hanswered⟩ := h.contracts key contract hcontract
    refine ⟨rfl, ?_⟩
    intro site hsite hkey
    rwa [← hcanonical.eq_normalized hsite hkey]
  pins := by
    intro key tree htree
    obtain ⟨rfl, hpin⟩ := h.pins key tree htree
    refine ⟨rfl, ?_⟩
    intro site hsite hkey
    exact (Engine.pinTree_nil_eq_some_iff hengine hsite).2
      ⟨hpin, hpin.holds.eq_normalized hsite hkey⟩

namespace Engine

/-- The caches there have been, from the empty one on, over runs that were each carried out to some
point. -/
inductive History (engine : Engine) : List Cache → Prop
  | start : History engine [{}]
  | run {earlier passed : List Cache} {cache : Cache} (h : History engine (earlier ++ [cache]))
      (conditions : Conditions) (roots : List Site) (session : Session)
      (hroots : ∀ root ∈ roots, Address.isHex root.address = true)
      (hpassed : passed <+: engine.trail conditions roots cache session) :
      History engine (earlier ++ [cache] ++ passed)

/-- Every run goes on from a sound cache through sound caches. -/
theorem trail_of_isSound (h : engine.OnHex) (hcache : cache.IsSound engine Site.IsCanonical)
    (hroots : ∀ root ∈ roots, Address.isHex root.address = true) :
    Cache.Trail engine Site.IsCanonical cache (engine.trail conditions roots cache session)
      (engine.computePins conditions roots height cache session).2.1 :=
  trail_computePins (distinguishes_isCanonical engine) h.hereditary hcache fun root hroot =>
    Site.isCanonical_normalized (hroots root hroot)

/-- All caches in a history of runs are sound, and each keeps what those before it hold. -/
theorem History.invariant (h : engine.OnHex) {caches : List Cache} (hhistory : engine.History caches) :
    (∀ point ∈ caches, point.IsSound engine Site.IsCanonical) ∧ caches.IsChain Cache.Keeps := by
  induction hhistory with
  | start =>
      refine ⟨?_, .singleton _⟩
      intro point hpoint
      rw [List.mem_singleton.1 hpoint]
      exact Cache.isSound_empty engine _
  | @run earlier passed cache _ conditions roots session hroots hpassed ih =>
      obtain ⟨hsound, hchain⟩ := ih
      have htrail : Cache.Trail engine Site.IsCanonical cache
          (engine.trail conditions roots cache session)
          (engine.computePins conditions roots 0 cache session).2.1 :=
        trail_of_isSound h (hsound cache (List.mem_append_right _ (.head _))) hroots
      constructor
      · intro point hpoint
        rcases List.mem_append.1 hpoint with hpoint | hpoint
        · exact hsound point hpoint
        · exact htrail.isSound point (hpassed.subset hpoint)
      · have hmore : ([cache] ++ passed).IsChain Cache.Keeps :=
          htrail.isChain.prefix ((List.prefix_cons_inj _).2 hpassed)
        exact hchain.append_overlap hmore (List.cons_ne_nil _ _)

/-- Whatever sound caches two runs start from, if both succeed they return the same records. -/
theorem records_eq_of_isSound (h : engine.OnHex) (hcache : cache.IsSound engine Site.IsCanonical)
    (hlater : later.IsSound engine Site.IsCanonical)
    (hroots : ∀ root ∈ roots, Address.isHex root.address = true)
    {records records' : List PinRecord}
    (hrecords : (engine.computePins conditions roots height cache session).1 = .ok records)
    (hrecords' : (engine.computePins calm roots height later other).1 = .ok records') :
    records = records' := by
  have hcanonical : ∀ root ∈ roots, root.normalized.IsCanonical := fun root hroot =>
    Site.isCanonical_normalized (hroots root hroot)
  obtain ⟨trees, rfl, htrees⟩ := (computePins_spec h.hereditary hcache hcanonical).2 _ hrecords
  obtain ⟨trees', rfl, htrees'⟩ := (computePins_spec h.hereditary hlater hcanonical).2 _ hrecords'
  rw [eq_of_forall₂ htrees htrees' fun root tree _ tree' _ hpin hpin' =>
    hpin.1.unique (distinguishes_isCanonical engine) hpin'.1 (hpin.2.trans hpin'.2.symm)]

/-- What a run has returned is returned from the empty cache too if nothing interferes. -/
theorem computePins_empty (h : engine.OnHex) (hcache : cache.IsSound engine Site.IsCanonical)
    (hroots : ∀ root ∈ roots, Address.isHex root.address = true) (hcalm : calm.IsCalm)
    (hover : other.context.isOver = false) {records : List PinRecord}
    (hrecords : (engine.computePins conditions roots height cache session).1 = .ok records) :
    (engine.computePins calm roots height {} other).1 = .ok records := by
  have hempty := Cache.isSound_empty engine Site.IsCanonical
  have hcanonical : ∀ root ∈ roots, root.normalized.IsCanonical := fun root hroot =>
    Site.isCanonical_normalized (hroots root hroot)
  have hall : ∀ root ∈ roots, engine.HasTree Site.IsCanonical root.normalized := by
    intro root hroot
    obtain ⟨trees, -, htrees⟩ := (computePins_spec h.hereditary hcache hcanonical).2 _ hrecords
    obtain ⟨tree, -, hpin, hkey⟩ := exists_of_mem_left htrees hroot
    exact ⟨tree, hpin, hpin.holds.eq_normalized (hroots root hroot) hkey.symm⟩
  obtain ⟨records', hrecords'⟩ : ∃ records',
      (engine.computePins calm roots height {} other).1 = .ok records' :=
    computePins_complete hcalm (distinguishes_isCanonical engine) h.hereditary hover hempty hall
  rw [records_eq_of_isSound h hcache hempty hroots hrecords hrecords', hrecords']

/-- A shared cache never changes an answer. In a history of runs, each carried out to some point,
all caches are fresh and no entry is lost or replaced; and whatever a run returns then, it returns
from the empty cache too if nothing interferes. -/
theorem computePins_of_history (h : engine.OnHex) {earlier : List Cache}
    (hhistory : engine.History (earlier ++ [cache])) :
    (∀ point ∈ earlier ++ [cache], point.IsFresh engine) ∧
    (earlier ++ [cache]).Pairwise Cache.Keeps ∧
    ∀ conditions roots height session, (∀ root ∈ roots, Address.isHex root.address = true) →
      (cache :: engine.trail conditions roots cache session).getLast? =
        some (engine.computePins conditions roots height cache session).2.1 ∧
      ∀ records, (engine.computePins conditions roots height cache session).1 = .ok records →
        ∀ calm other, calm.IsCalm → other.context.isOver = false →
          (engine.computePins calm roots height {} other).1 = .ok records := by
  obtain ⟨hsound, hchain⟩ := hhistory.invariant h
  have hcache := hsound cache (List.mem_append_right _ (.head _))
  refine ⟨fun point hpoint => (hsound point hpoint).isFresh h, List.isChain_iff_pairwise.1 hchain,
    ?_⟩
  intro conditions roots height session hroots
  constructor
  · rw [List.getLast?_eq_some_getLast (List.cons_ne_nil _ _),
      (trail_of_isSound h hcache hroots).getLast_eq]
  · intro records hrecords calm other hcalm hover
    exact computePins_empty h hcache hroots hcalm hover hrecords

/-- A run that is given up after its first write, at a token that fails in passing, and a run over
what it has left. -/
theorem computePins_of_history_shopOn : ∃ earlier cache records,
    earlier ++ [cache] = ([{}] : List Cache) ++ ((shopOn "testnet" "0x1").trail
      { drops := fun calls => calls.length == 2 } [⟨"Shop", "0x2"⟩] {} {}).take 1 ∧
    (shopOn "testnet" "0x1").History (earlier ++ [cache]) ∧
    (∀ point ∈ earlier ++ [cache], point.IsFresh (shopOn "testnet" "0x1")) ∧
    (earlier ++ [cache]).Pairwise Cache.Keeps ∧
    ((shopOn "testnet" "0x1").computePins {} [⟨"Shop", "0x2"⟩, ⟨"Token", "01"⟩] 7 cache {}).1 =
      .ok records ∧
    ((shopOn "testnet" "0x1").computePins {} [⟨"Shop", "0x2"⟩, ⟨"Token", "01"⟩] 7 {} {}).1 =
      .ok records := by
  have hex : (shopOn "testnet" "0x1").OnHex := onHex_shopOn (by decide) (by decide)
  have hshop : (shopOn "testnet" "0x1").IsPinTree Site.IsCanonical
      (shopTree ⟨"Shop", "0x0000000000000002"⟩ ⟨"Token", "0x0000000000000001"⟩) :=
    isPinTree_shopTree ⟨"Token", "testnet", "0x0000000000000001", none⟩ (by decide)
      (by decide) (by decide) (by decide) (by decide)
  have htoken := hshop.digests.2.2 _ (.head _)
  have hcalm : Conditions.IsCalm {} := ⟨fun _ => rfl, fun _ => rfl⟩
  have hall : ∀ root ∈ [(⟨"Shop", "0x2"⟩ : Site), ⟨"Token", "01"⟩],
      (shopOn "testnet" "0x1").HasTree Site.IsCanonical root.normalized := by
    intro root hroot
    rcases List.mem_cons.1 hroot with rfl | hroot
    · exact ⟨_, hshop, by decide⟩
    · rw [List.mem_singleton.1 hroot]
      exact ⟨_, htoken, by decide⟩
  have hstart : (shopOn "testnet" "0x1").History ([] ++ [({} : Cache)]) := .start
  have hhistory := hstart.run { drops := fun calls => calls.length == 2 } [⟨"Shop", "0x2"⟩] {}
    (by decide) (List.take_prefix 1 _)
  have hne : ([{}] : List Cache) ++ ((shopOn "testnet" "0x1").trail
      { drops := fun calls => calls.length == 2 } [⟨"Shop", "0x2"⟩] {} {}).take 1 ≠ [] :=
    List.cons_ne_nil _ _
  obtain ⟨earlier, cache, hcaches⟩ := (List.eq_nil_or_concat' _).resolve_left hne
  rw [List.nil_append, hcaches] at hhistory
  obtain ⟨hfresh, hkeeps, hrun⟩ := computePins_of_history hex hhistory
  have hcache := (hhistory.invariant hex).1 cache (List.mem_append_right _ (.head _))
  obtain ⟨records, hrecords⟩ : ∃ records, ((shopOn "testnet" "0x1").computePins {}
      [⟨"Shop", "0x2"⟩, ⟨"Token", "01"⟩] 7 cache {}).1 = .ok records :=
    computePins_complete hcalm (distinguishes_isCanonical _) hex.hereditary rfl hcache hall
  exact ⟨earlier, cache, records, hcaches.symm, hhistory, hfresh, hkeeps, hrecords,
    (hrun {} _ 7 {} (by decide)).2 records hrecords {} {} hcalm rfl⟩

end Engine

end Interaction
