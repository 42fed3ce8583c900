import Interaction.Proofs.Pinning.Engine

/-!
# The caches that a run goes through

A run writes to its cache step by step: a contract is kept, or the pin of a contract is stored.
The trail of a run lists the cache after each write. Every cache on it is sound and keeps what the
ones before it hold, and the run leaves the last one. So wherever a run is broken off, the cache is
good for the next run.
-/

namespace Interaction

namespace Cache

variable {engine : Engine} {P : Site → Prop} {cache later : Cache} {key : String}

/-- What is stored stays, and stays what it is. -/
structure Keeps (cache later : Cache) : Prop where
  contracts : ∀ key contract, cache.contract? key = some contract →
    later.contract? key = some contract
  pins : ∀ key tree, cache.pin? key = some tree → later.pin? key = some tree

theorem Keeps.trans {last : Cache} (h : cache.Keeps later) (hnext : later.Keeps last) :
    cache.Keeps last :=
  ⟨fun key contract hkey => hnext.contracts key contract (h.contracts key contract hkey),
    fun key tree hkey => hnext.pins key tree (h.pins key tree hkey)⟩

theorem Keeps.contains (h : cache.Keeps later) (hkey : cache.contracts.contains key = true) :
    later.contracts.contains key = true := by
  obtain ⟨contract, hcontract⟩ := Option.isSome_iff_exists.1 hkey
  exact Table.contains_of_get? (h.contracts key contract hcontract)

instance : IsTrans Cache Keeps :=
  ⟨fun _ _ _ h hnext => h.trans hnext⟩

theorem keeps_keep (cache : Cache) (key : String) (contract : Fetched) :
    cache.Keeps (cache.keep key contract).2 := by
  obtain ⟨-, hgrows, -, hpins⟩ := keep_spec cache key contract
  refine ⟨hgrows, ?_⟩
  intro other tree htree
  rwa [pin?, hpins]

theorem keeps_setPin {tree : PinTree} (h : ∀ known, cache.pin? key = some known → known = tree) :
    cache.Keeps (cache.setPin key tree) := by
  refine ⟨fun _ _ hkey => hkey, ?_⟩
  intro other known hknown
  rw [pin?, setPin, Table.get?_insert]
  split
  next heq => rw [h known (heq ▸ hknown)]
  next => exact hknown

theorem IsSound.keep (h : cache.IsSound engine P) {site : Site} {contract : Fetched}
    (hsite : P site) (hanswered : engine.inspect site = .ok contract) :
    (cache.keep (site.key engine.network) contract).2.IsSound engine P := by
  obtain ⟨-, -, horigin, hpins⟩ := keep_spec cache (site.key engine.network) contract
  refine ⟨?_, ?_⟩
  · intro key known hknown
    rcases horigin key known hknown with hold | hnew
    · exact h.contracts key known hold
    · cases hnew
      rw [Engine.site_of_inspect hanswered]
      exact ⟨rfl, hsite, hanswered⟩
  · intro key tree htree
    rw [pin?, hpins] at htree
    exact h.pins key tree htree

/-- A way from one cache to another through sound caches, each of which keeps what the one before
it holds. -/
inductive Trail (engine : Engine) (P : Site → Prop) : Cache → List Cache → Cache → Prop
  | nil {cache : Cache} : Trail engine P cache [] cache
  | cons {cache next last : Cache} {more : List Cache} (sound : next.IsSound engine P)
      (keeps : cache.Keeps next) (h : Trail engine P next more last) :
      Trail engine P cache (next :: more) last

namespace Trail

variable {passed more : List Cache} {last : Cache}

theorem append (h : Trail engine P cache passed later) (hmore : Trail engine P later more last) :
    Trail engine P cache (passed ++ more) last := by
  induction h with
  | nil => exact hmore
  | cons sound keeps _ ih => exact .cons sound keeps (ih hmore)

theorem isSound (h : Trail engine P cache passed later) : ∀ point ∈ passed,
    point.IsSound engine P := by
  induction h with
  | nil => nofun
  | cons sound _ _ ih => exact List.forall_mem_cons.2 ⟨sound, ih⟩

theorem isChain (h : Trail engine P cache passed later) : (cache :: passed).IsChain Keeps := by
  induction h with
  | nil => exact .singleton _
  | cons _ keeps _ ih => exact .cons_cons keeps ih

/-- A trail ends where it leads. -/
theorem getLast_eq (h : Trail engine P cache passed later) :
    (cache :: passed).getLast (List.cons_ne_nil _ _) = later := by
  induction h with
  | nil => rfl
  | cons _ _ _ ih => rw [List.getLast_cons_cons, ih]

end Trail

end Cache

namespace Assembly

open Engine

variable {engine : Engine} {P : Site → Prop} {context : Context} {cache : Cache}

/-- The caches that doing something for each site goes through, from those of the single sites. -/
def forEachTrail (f : Site → Cache → Except Failure PinTree × Cache)
    (trail : Site → Cache → List Cache) : List Site → Cache → List Cache
  | [], _ => []
  | site :: more, cache =>
    trail site cache ++
      match f site cache with
      | (.error _, _) => []
      | (.ok _, cache) => forEachTrail f trail more cache

/-- The caches that assembling a contract goes through. -/
def withinTrail (network : String) (context : Context) :
    (depth : Nat) → (path : List String) → (key : String) → Cache → List Cache
  | 0, _, _, _ => []
  | depth + 1, path, key, cache =>
    if context.isOver then []
    else
      match cache.pin? key with
      | some _ => []
      | none =>
        if path.contains key then []
        else
          match cache.contract? key with
          | none => []
          | some contract =>
            let step site := within network context depth (path ++ [key]) (site.key network)
            let trail site := withinTrail network context depth (path ++ [key]) (site.key network)
            forEachTrail step trail contract.children cache ++
              match forEach step contract.children cache with
              | (.error _, _) => []
              | (.ok imports, cache) => [cache.setPin key (node contract imports)]

theorem trail_forEach {f : Site → Cache → Except Failure PinTree × Cache}
    {trail : Site → Cache → List Cache} {sites : List Site}
    (hf : ∀ site ∈ sites, ∀ cache, cache.IsSound engine P →
      (f site cache).2.IsSound engine P ∧
        Cache.Trail engine P cache (trail site cache) (f site cache).2)
    (hcache : cache.IsSound engine P) :
    Cache.Trail engine P cache (forEachTrail f trail sites cache) (forEach f sites cache).2 := by
  induction sites generalizing cache with
  | nil => exact .nil
  | cons site more ih =>
      obtain ⟨hsound, hfirst⟩ := hf site (.head _) cache hcache
      rw [forEach, forEachTrail]
      cases hsite : f site cache with
      | mk answer after =>
          rw [hsite] at hsound hfirst
          cases answer with
          | error failure =>
              rw [List.append_nil]
              exact hfirst
          | ok tree =>
              have hrest := ih (fun other hother => hf other (.tail _ hother)) hsound
              dsimp only at hrest ⊢
              refine hfirst.append ?_
              cases hmore : forEach f more after with
              | mk answer last =>
                  rw [hmore] at hrest
                  cases answer with
                  | error failure => exact hrest
                  | ok trees => exact hrest

/-- Assembling from a sound cache goes through sound caches. A pin is only stored where there was
none or the same. -/
theorem trail_within (hdistinct : engine.Distinguishes P) (depth : Nat) (path : List String)
    (key : String) (hcache : cache.IsSound engine P) :
    Cache.Trail engine P cache (withinTrail engine.network context depth path key cache)
      (within engine.network context depth path key cache).2 := by
  induction depth generalizing path key cache with
  | zero => exact .nil
  | succ depth ih =>
      rw [within, withinTrail]
      by_cases hover : context.isOver = true
      · rw [if_pos hover, if_pos hover]
        exact .nil
      rw [if_neg hover, if_neg hover]
      cases hpinned : cache.pin? key with
      | some tree => exact .nil
      | none =>
          dsimp only
          by_cases hpath : path.contains key = true
          · rw [if_pos hpath, if_pos hpath]
            exact .nil
          rw [if_neg hpath, if_neg hpath]
          cases hcontract : cache.contract? key with
          | none => exact .nil
          | some contract =>
              obtain ⟨hkey, hholds, hanswered⟩ := hcache.contracts key contract hcontract
              have hstep (child : Site) (cache : Cache) (hcache : cache.IsSound engine P) :
                  Extends engine P cache (within engine.network context depth (path ++ [key])
                    (child.key engine.network) cache).2 ∧ _ :=
                within_spec depth (path ++ [key]) (child.key engine.network) hcache
              have hbelow : Cache.Trail engine P cache _ _ :=
                trail_forEach (fun child (_ : child ∈ contract.children) cache hcache =>
                  ⟨(hstep child cache hcache).1.isSound,
                    ih (path ++ [key]) (child.key engine.network) hcache⟩) hcache
              obtain ⟨hextends, htrees⟩ := forEach_spec (fun child (_ : child ∈ contract.children)
                cache hcache => hstep child cache hcache) hcache
              dsimp only
              rcases hchildren : forEach (fun child => within engine.network context depth
                (path ++ [key]) (child.key engine.network)) contract.children cache with
                ⟨failure | imports, after⟩
              · rw [hchildren] at hbelow
                rw [List.append_nil]
                exact hbelow
              · rw [hchildren] at hbelow hextends htrees
                have hpin : engine.IsPinTree P (node contract imports) := by
                  have hall := htrees imports rfl
                  refine .node hholds hanswered (hall.imp fun child tree h => h.2) ?_
                  intro tree htree
                  obtain ⟨child, -, hchild, -⟩ := exists_of_mem_right hall htree
                  exact hchild
                have hsame : ∀ known, after.pin? key = some known →
                    known = node contract imports := by
                  intro known hknown
                  obtain ⟨hat, hother⟩ := hextends.isSound.pins key known hknown
                  exact hother.unique hdistinct hpin (hat.trans hkey.symm)
                exact hbelow.append
                  (.cons (hextends.isSound.setPin hpin hkey) (Cache.keeps_setPin hsame) .nil)

end Assembly

namespace Engine

variable {engine : Engine} {P : Site → Prop} {conditions : Conditions} {levels : Nat}
  {seen : List String} {sites roots : List Site} {height : Nat} {cache : Cache} {session : Session}

/-- The caches that keeping contracts goes through. -/
def keepTrail (cache : Cache) : List (String × Fetched) → List Cache
  | [] => []
  | entry :: more =>
    let kept := (cache.keep entry.1 entry.2).2
    kept :: keepTrail kept more

/-- The caches that a walk goes through. -/
def discoverTrail (engine : Engine) (conditions : Conditions) :
    (levels : Nat) → (seen : List String) → (sites : List Site) → Cache → Session → List Cache
  | 0, _, _, _, _ => []
  | levels + 1, seen, sites, cache, session =>
    if sites = [] then []
    else if session.context.isOver then []
    else
      let level := engine.sortOut cache seen sites
      match engine.gather conditions session level.missing [] [] with
      | (.error _, _) => []
      | (.ok fetched, session) =>
        let kept := keepAll cache fetched
        keepTrail cache fetched ++
          discoverTrail engine conditions levels level.seen (level.next ++ kept.1) kept.2 session

/-- The caches that pinning contracts goes through. -/
def trail (engine : Engine) (conditions : Conditions) (roots : List Site) (cache : Cache)
    (session : Session) : List Cache :=
  let unpinned := engine.unpinned cache roots
  let levels := cache.size + engine.chain.size + 2
  engine.discoverTrail conditions levels [] unpinned cache session ++
    match engine.discover conditions unpinned cache session with
    | (.error _, _, _) => []
    | (.ok (), cache, session) =>
      Assembly.forEachTrail
        (fun site => Assembly.assemble engine.network session.context (site.key engine.network))
        (fun site cache => Assembly.withinTrail engine.network session.context (cache.size + 1) []
          (site.key engine.network) cache)
        (roots.map Site.normalized) cache

theorem keepAll_snd (cache : Cache) (fetched : List (String × Fetched)) :
    (keepAll cache fetched).2 =
      fetched.foldl (fun cache entry => (cache.keep entry.1 entry.2).2) cache := by
  rw [keepAll]
  generalize ([] : List Site) = sites
  induction fetched generalizing cache sites with
  | nil => rfl
  | cons entry more ih => exact ih _ _

theorem trail_keepAll (hcache : cache.IsSound engine P) {fetched : List (String × Fetched)}
    (hfetched : ∀ entry ∈ fetched, ∃ site, P site ∧ site.key engine.network = entry.1 ∧
      engine.inspect site = .ok entry.2) :
    Cache.Trail engine P cache (keepTrail cache fetched) (keepAll cache fetched).2 := by
  rw [keepAll_snd]
  induction fetched generalizing cache with
  | nil => exact .nil
  | cons entry more ih =>
      obtain ⟨site, hsite, hkey, hanswered⟩ := hfetched entry (.head _)
      have hsound := hcache.keep hsite hanswered
      rw [hkey] at hsound
      exact .cons hsound (Cache.keeps_keep cache entry.1 entry.2)
        (ih hsound fun other hother => hfetched other (.tail _ hother))

/-- A walk from a sound cache goes through sound caches, whatever happens. -/
theorem trail_discoverWithin (hhereditary : engine.Hereditary P)
    (hcache : cache.IsSound engine P) (hsites : ∀ site ∈ sites, P site) :
    Cache.Trail engine P cache
      (engine.discoverTrail conditions levels seen sites cache session)
      (engine.discoverWithin conditions levels seen sites cache session).2.1 := by
  fun_induction discoverWithin engine conditions levels seen sites cache session with
  | case1 => exact .nil
  | case2 levels seen cache session =>
      rw [discoverTrail, if_pos rfl]
      exact .nil
  | case3 levels seen sites cache session hsome hover =>
      rw [discoverTrail, if_neg hsome, if_pos hover]
      exact .nil
  | case4 levels seen sites cache session hsome hover level failure after hgather =>
      have hstep : engine.gather conditions session (engine.sortOut cache seen sites).missing [] [] =
          (.error failure, after) := hgather
      rw [discoverTrail, if_neg hsome, if_neg hover]
      dsimp only
      rw [hstep]
      exact .nil
  | case5 levels seen sites cache session hsome hover level fetched after hgather kept ih =>
      have hfetched := congrArg Prod.fst hgather
      have hadvance := advance_of_reaches (reaches_of_gather hfetched)
      have hsound := hadvance.isSound hcache hsites
      have hstep : engine.gather conditions session (engine.sortOut cache seen sites).missing [] [] =
          (.ok fetched, after) := hgather
      rw [discoverTrail, if_neg hsome, if_neg hover]
      dsimp only
      rw [hstep]
      refine .append (trail_keepAll hcache ?_)
        (ih hsound (hadvance.next_holds hhereditary hsound))
      intro entry hentry
      obtain ⟨site, hsite, hkey, hanswered⟩ :=
        exists_of_mem_fetched (reaches_of_gather hfetched) entry hentry
      exact ⟨site, hsites site hsite, hkey, hanswered⟩

/-- A run over a sound cache goes through sound caches, each of which keeps what the one before it
holds, and leaves the last one. -/
theorem trail_computePins (hdistinct : engine.Distinguishes P)
    (hhereditary : engine.Hereditary P) (hcache : cache.IsSound engine P)
    (hroots : ∀ root ∈ roots, P root.normalized) :
    Cache.Trail engine P cache (engine.trail conditions roots cache session)
      (engine.computePins conditions roots height cache session).2.1 := by
  have hunpinned : ∀ site ∈ engine.unpinned cache roots, P site := by
    intro site hsite
    obtain ⟨root, hroot, rfl⟩ := exists_of_mem_unpinned hsite
    exact hroots root hroot
  have hwalk : Cache.Trail engine P cache
      (engine.discoverTrail conditions (cache.size + engine.chain.size + 2) []
        (engine.unpinned cache roots) cache session)
      (engine.discover conditions (engine.unpinned cache roots) cache session).2.1 :=
    trail_discoverWithin hhereditary hcache hunpinned
  have hfound : (engine.discover conditions (engine.unpinned cache roots) cache
      session).2.1.IsSound engine P :=
    isSound_of_reaches hhereditary hcache hunpinned reaches_discoverWithin
  rw [trail, computePins, ← unpinned]
  rcases hdiscover : engine.discover conditions (engine.unpinned cache roots) cache session with
    ⟨failure | ⟨⟩, after, last⟩
  · rw [hdiscover] at hwalk
    rw [List.append_nil]
    exact hwalk
  · rw [hdiscover] at hwalk hfound
    refine hwalk.append ?_
    have hassembled : Cache.Trail engine P after _
        (engine.assembleRoots last.context (roots.map Site.normalized) after).2 :=
      Assembly.trail_forEach (fun site _ cache hcache =>
        ⟨(Assembly.within_spec _ _ _ hcache).1.isSound,
          Assembly.trail_within hdistinct _ _ _ hcache⟩) hfound
    dsimp only
    rcases hassemble : engine.assembleRoots last.context (roots.map Site.normalized) after with
      ⟨failure | trees, final⟩
    · rw [hassemble] at hassembled
      exact hassembled
    · rw [hassemble] at hassembled
      exact hassembled

end Engine

end Interaction
