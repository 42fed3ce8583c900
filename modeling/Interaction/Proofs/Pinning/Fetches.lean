import Interaction.Proofs.Pinning.Commitment
import Interaction.Proofs.Pinning.Trail

/-!
# Each contract is fetched once

What a run asks the chain for is read off the calls of its session. A level that succeeds makes one
call for each contract that is missing, in order; a contract that has been asked for is in the cache
and never missing again. So runs over one cache, as long as they succeed, ask for each contract that
their roots lead to exactly once, and for nothing else.
-/

namespace Interaction

/-- Whether a call asks for the source of the contract with the given key. -/
def Call.asksFor (key : String) : Call → Bool
  | .fetch network address name => identityKey network address name == key
  | .height _ => false

namespace Engine

variable {engine : Engine} {conditions : Conditions} {roots more : List Site} {height : Nat}
  {cache : Cache} {session : Session} {waiting : List (String × Site)} {underWay : List Task}
  {arrived fetched : List (String × Fetched)} {seen : List String} {sites asked : List Site}

/-- The call by which the source of a contract is asked for. -/
def fetchCall (engine : Engine) (site : Site) : Call :=
  .fetch engine.network site.address site.name

/-- The contracts that these roots lead to through the imports of deployed contracts. -/
inductive Reachable (engine : Engine) (roots : List Site) : Site → Prop
  | root {root : Site} (h : root ∈ roots) : Reachable engine roots root.normalized
  | child {site child : Site} {contract : Fetched} (h : Reachable engine roots site)
      (hcontract : engine.inspect site = .ok contract) (hchild : child ∈ contract.children) :
      Reachable engine roots child

theorem Reachable.mono {site : Site} (h : engine.Reachable roots site)
    (hroots : ∀ root ∈ roots, root ∈ more) : engine.Reachable more site := by
  induction h with
  | root hroot => exact .root (hroots _ hroot)
  | child _ hcontract hchild ih => exact .child ih hcontract hchild

theorem Reachable.isCanonical (hengine : engine.OnHex)
    (hroots : ∀ root ∈ roots, Address.isHex root.address = true) {site : Site}
    (h : engine.Reachable roots site) : site.IsCanonical := by
  cases h with
  | root hroot => exact Site.isCanonical_normalized (hroots _ hroot)
  | child _ hcontract hchild => exact hengine.hereditary _ _ hcontract _ hchild

/-! ### One level -/

/-- If a level succeeds, so does every fetch that is under way. -/
theorem answer_of_gather
    (h : (engine.gather conditions session waiting underWay arrived).1 = .ok fetched) :
    ∀ task ∈ underWay, ∃ contract, task.answer = .ok contract := by
  fun_induction gather engine conditions session waiting underWay arrived with
  | case1 session waiting underWay arrived i hchoose hnone =>
      have hlt := choose_lt hchoose
      rw [List.getElem?_eq_none_iff] at hnone
      omega
  | case2 => cases h
  | case3 session waiting underWay arrived i hchoose task htask contract harrival ih =>
      obtain ⟨hlt, hget⟩ := List.getElem?_eq_some_iff.1 htask
      intro other hother
      have hback := (List.getElem_cons_eraseIdx_perm hlt).mem_iff.2 hother
      rcases List.mem_cons.1 hback with rfl | hback
      · rw [hget]
        exact ⟨contract, answer_of_arrival harrival⟩
      · exact ih h other hback
  | case4 session underWay arrived hchoose =>
      rw [List.length_eq_zero_iff.1 (eq_zero_of_choose_zero hchoose)]
      exact List.forall_mem_nil _
  | case5 session underWay arrived key site more hchoose started ih =>
      exact fun task htask => ih h task (List.mem_append_left _ htask)

/-- A fetch that is started makes its call if the build is not over, and has failed if it is. -/
theorem calls_start {key : String} {site : Site} {contract : Fetched}
    (h : (engine.start conditions session key site).1.answer = .ok contract) :
    (engine.start conditions session key site).2.calls =
      engine.fetchCall site :: session.calls := by
  unfold start at h ⊢
  split at h
  · cases h
  next hover =>
    rw [if_neg hover]
    rfl

/-- A single contract is asked for and answered, unless the call fails in passing. It is answered
even if the build is cancelled meanwhile. -/
theorem gather_single {site : Site} {key : String} {contract : Fetched}
    (h : engine.inspect site = .ok contract) (hover : session.context.isOver = false)
    (hdrops : conditions.drops (engine.fetchCall site :: session.calls) = false) :
    engine.gather conditions session [(key, site)] [] [] =
      (.ok [(key, contract)], (session.make conditions (engine.fetchCall site)).pass) := by
  have hstart : engine.start conditions session key site =
      (⟨key, .ok contract, conditions.cancels (engine.fetchCall site :: session.calls)⟩,
        session.make conditions (engine.fetchCall site)) := by
    rw [start, if_neg (by simp [hover]), h]
    dsimp only
    rw [if_neg (by simpa [Session.make, fetchCall] using hdrops)]
    rfl
  have hchoose (now : Session) : engine.choose conditions now 0 1 = some 0 := by
    rw [choose, if_neg Nat.one_ne_zero]
    cases conditions.answers now.moment 1 with
    | none => rfl
    | some i => simp [Nat.mod_one]
  have harrival : Task.arrival conditions (session.make conditions (engine.fetchCall site))
      ⟨key, .ok contract, conditions.cancels (engine.fetchCall site :: session.calls)⟩ =
        .ok contract := by
    cases hcancels : conditions.cancels (engine.fetchCall site :: session.calls) <;>
      simp [Task.arrival, Session.make, hcancels, hover]
  rw [gather_of_start rfl, hstart, gather_of_arrival (hchoose _) rfl harrival, gather]
  rfl

/-- A walk goes over a single contract that it meets for the first time to what that imports. -/
theorem discoverWithin_single {levels : Nat} {site : Site} {contract : Fetched}
    (h : engine.inspect site = .ok contract) (hover : session.context.isOver = false)
    (hdrops : conditions.drops (engine.fetchCall site :: session.calls) = false)
    (hnew : site.key engine.network ∉ seen)
    (hnone : cache.contract? (site.key engine.network) = none) :
    engine.discoverWithin conditions (levels + 1) seen [site] cache session =
      engine.discoverWithin conditions levels (site.key engine.network :: seen) contract.children
        (cache.keep (site.key engine.network) contract).2
        (session.make conditions (engine.fetchCall site)).pass := by
  have hlevel : engine.sortOut cache seen [site] =
      ⟨site.key engine.network :: seen, [], [(site.key engine.network, site)]⟩ := by
    simp [sortOut, Frontier.add, hnew, hnone]
  have hkept : keepAll cache [(site.key engine.network, contract)] =
      (contract.children, (cache.keep (site.key engine.network) contract).2) := by
    simp [keepAll, Cache.keep, hnone]
  rw [discoverWithin, if_neg (List.cons_ne_nil _ _), hover, hlevel]
  simp only [Bool.false_eq_true, if_false, gather_single h hover hdrops, hkept, List.nil_append]

/-- A level that succeeds has made a call for each contract that waited, in their order. -/
theorem calls_gather
    (h : (engine.gather conditions session waiting underWay arrived).1 = .ok fetched) :
    (engine.gather conditions session waiting underWay arrived).2.calls =
      (waiting.map fun entry => engine.fetchCall entry.2).reverse ++ session.calls := by
  fun_induction gather engine conditions session waiting underWay arrived with
  | case1 session waiting underWay arrived i hchoose hnone =>
      have hlt := choose_lt hchoose
      rw [List.getElem?_eq_none_iff] at hnone
      omega
  | case2 => cases h
  | case3 session waiting underWay arrived i hchoose task htask contract harrival ih => exact ih h
  | case4 => rfl
  | case5 session underWay arrived key site more started hchoose ih =>
      obtain ⟨contract, hanswer⟩ :=
        answer_of_gather h started.1 (List.mem_append_right _ (.head _))
      rw [ih h, calls_start hanswer, List.map_cons, List.reverse_cons, List.append_assoc]
      rfl

/-- The contracts that are missing on a level are missing once. -/
theorem nodup_missing (engine : Engine) (cache : Cache) (seen : List String) (sites : List Site) :
    ((engine.sortOut cache seen sites).missing.map Prod.fst).Nodup := by
  have hstep : ∀ (done : List Site) (level : Frontier) (site : Site),
      (level.missing.map Prod.fst).Nodup ∧ (∀ entry ∈ level.missing, entry.1 ∈ level.seen) →
      ((level.add engine.network cache site).missing.map Prod.fst).Nodup ∧
        ∀ entry ∈ (level.add engine.network cache site).missing,
          entry.1 ∈ (level.add engine.network cache site).seen := by
    rintro done level site ⟨hnodup, hseen⟩
    unfold Frontier.add
    simp only [List.contains_iff_mem]
    split
    next => exact ⟨hnodup, hseen⟩
    next hnew =>
      split
      next known hknown =>
        exact ⟨hnodup, fun entry hentry => List.mem_cons_of_mem _ (hseen entry hentry)⟩
      next hnone =>
        constructor
        · rw [List.map_append, List.nodup_append]
          refine ⟨hnodup, List.nodup_singleton _, ?_⟩
          intro key hkey other hother heq
          obtain ⟨entry, hentry, rfl⟩ := List.mem_map.1 hkey
          have hsame : entry.1 = site.key engine.network :=
            heq.trans (List.mem_singleton.1 hother)
          exact hnew (hsame ▸ hseen entry hentry)
        · intro entry hentry
          rcases List.mem_append.1 hentry with hentry | hentry
          · exact List.mem_cons_of_mem _ (hseen entry hentry)
          · rw [List.mem_singleton.1 hentry]
            exact .head _
  have hstart : (([] : List (String × Site)).map Prod.fst).Nodup ∧
      ∀ entry ∈ ([] : List (String × Site)), entry.1 ∈ seen := ⟨.nil, nofun⟩
  exact (foldl_invariant (I := fun _ (level : Frontier) => (level.missing.map Prod.fst).Nodup ∧
    ∀ entry ∈ level.missing, entry.1 ∈ level.seen) hstart hstep sites).1

/-- After a level that succeeds, what was missing is cached and nothing else is new. -/
theorem contains_keepAll
    (h : (engine.gather conditions session (engine.sortOut cache seen sites).missing [] []).1 =
      .ok fetched) (key : String) :
    (keepAll cache fetched).2.contracts.contains key = true ↔
      cache.contracts.contains key = true ∨
        key ∈ (engine.sortOut cache seen sites).missing.map Prod.fst := by
  have hkept := keptAll_keepAll cache fetched
  rw [← mem_fetched_iff (reaches_of_gather h)]
  constructor
  · intro hkey
    obtain ⟨contract, hcontract⟩ := Option.isSome_iff_exists.1 hkey
    exact (hkept.origin key contract hcontract).imp Table.contains_of_get? fun hmem =>
      List.mem_map_of_mem hmem
  · rintro (hkey | hkey)
    · obtain ⟨contract, hcontract⟩ := Option.isSome_iff_exists.1 hkey
      exact Table.contains_of_get? (hkept.grows key contract hcontract)
    · obtain ⟨entry, hentry, rfl⟩ := List.mem_map.1 hkey
      obtain ⟨contract, hcontract, -⟩ := hkept.placed entry hentry
      exact Table.contains_of_get? hcontract

/-! ### A walk -/

/-- The calls so far are one for each of these contracts, and these are the cached ones. -/
structure Asked (engine : Engine) (roots asked : List Site) (cache : Cache)
    (calls : List Call) : Prop where
  calls : calls = asked.map engine.fetchCall
  nodup : (asked.map (Site.key engine.network)).Nodup
  cached : ∀ key, cache.contracts.contains key = true ↔ key ∈ asked.map (Site.key engine.network)
  reachable : ∀ site ∈ asked, engine.Reachable roots site

/-- What cached contracts import is cached or comes next. -/
def Owes (engine : Engine) (cache : Cache) (sites : List Site) : Prop :=
  ∀ key contract, cache.contract? key = some contract → ∀ child ∈ contract.children,
    cache.contracts.contains (child.key engine.network) = true ∨
      ∃ site ∈ sites, site.key engine.network = child.key engine.network

/-- What is asked for on a level joins what has been asked for before. -/
theorem Asked.gather (h : engine.Asked roots asked cache session.calls)
    (hsites : ∀ site ∈ sites, engine.Reachable roots site) {after : Session}
    (hgather : engine.gather conditions session (engine.sortOut cache seen sites).missing [] [] =
      (.ok fetched, after)) :
    engine.Asked roots
      (((engine.sortOut cache seen sites).missing.map Prod.snd).reverse ++ asked)
      (keepAll cache fetched).2 after.calls := by
  have hlevel := sortedOut_sortOut engine cache seen sites
  have hok := congrArg Prod.fst hgather
  have hcalls := calls_gather hok
  have hcontains := contains_keepAll hok
  rw [hgather] at hcalls
  have hkeys : ((engine.sortOut cache seen sites).missing.map Prod.snd).map
      (Site.key engine.network) = (engine.sortOut cache seen sites).missing.map Prod.fst := by
    rw [List.map_map]
    exact List.map_congr_left fun entry hentry => (hlevel.missing_mem entry hentry).2.1
  constructor
  · rw [hcalls, h.calls, List.map_append, List.map_reverse, List.map_map]
    rfl
  · rw [List.map_append, List.map_reverse, hkeys, List.nodup_append]
    refine ⟨List.nodup_reverse.2 (nodup_missing engine cache seen sites), h.nodup, ?_⟩
    rintro key hkey _ hother rfl
    obtain ⟨entry, hentry, rfl⟩ := List.mem_map.1 (List.mem_reverse.1 hkey)
    have hnone := (hlevel.missing_mem entry hentry).2.2.2
    have hcached := (h.cached entry.1).2 hother
    rw [Table.contains, ← Cache.contract?, hnone] at hcached
    cases hcached
  · intro key
    rw [hcontains, h.cached, List.map_append, List.mem_append, List.map_reverse, hkeys,
      List.mem_reverse, or_comm]
  · intro site hsite
    rcases List.mem_append.1 hsite with hsite | hsite
    · obtain ⟨entry, hentry, rfl⟩ := List.mem_map.1 (List.mem_reverse.1 hsite)
      exact hsites entry.2 (hlevel.missing_mem entry hentry).1
    · exact h.reachable site hsite

theorem Advance.keeps {seen' : List String} {sites' : List Site} {cache' : Cache}
    (h : engine.Advance seen sites cache seen' sites' cache') : cache.Keeps cache' := by
  refine ⟨h.grows, ?_⟩
  intro key tree htree
  rwa [Cache.pin?, h.pins]

/-- A step of the walk settles what was owed and owes what the new contracts import. -/
theorem Advance.owes {seen' : List String} {sites' : List Site} {cache' : Cache}
    (h : engine.Advance seen sites cache seen' sites' cache')
    (hpending : engine.Pending seen sites cache) (howes : engine.Owes cache sites) :
    engine.Owes cache' sites' := by
  have hmet {key : String} (hkey : key ∈ seen) : ∃ contract,
      cache.contract? key = some contract := by
    obtain ⟨contract, hcontract, -⟩ := hpending key hkey
    exact ⟨contract, hcontract⟩
  intro key contract hcontract child hchild
  by_cases hold : ∃ known, cache.contract? key = some known
  · obtain ⟨known, hknown⟩ := hold
    cases (h.grows key known hknown).symm.trans hcontract
    refine (howes key contract hknown child hchild).elim
      (fun hcached => .inl (h.keeps.contains hcached)) ?_
    rintro ⟨site, hsite, hkey⟩
    rw [← hkey]
    by_cases hseen : site.key engine.network ∈ seen
    · obtain ⟨other, hother⟩ := hmet hseen
      exact .inl (h.keeps.contains (Table.contains_of_get? hother))
    · obtain ⟨other, hother, -⟩ := h.placed site hsite hseen
      exact .inl (Table.contains_of_get? hother)
  · rcases h.origin key contract hcontract with hknown | ⟨site, hsite, rfl, -⟩
    · exact absurd ⟨contract, hknown⟩ hold
    · obtain ⟨placed, hplaced, hchildren⟩ := h.placed site hsite fun hseen => hold (hmet hseen)
      cases hplaced.symm.trans hcontract
      exact .inr ⟨child, hchildren child hchild, rfl⟩

/-- What holds at every step of a walk that makes each call once. -/
structure Walks (engine : Engine) (roots : List Site) (seen : List String) (sites : List Site)
    (cache : Cache) (session : Session) : Prop where
  sound : cache.IsSound engine Site.IsCanonical
  pending : engine.Pending seen sites cache
  owes : engine.Owes cache sites
  reachable : ∀ site ∈ sites, engine.Reachable roots site
  asked : ∃ asked, engine.Asked roots asked cache session.calls

theorem Walks.step (hengine : engine.OnHex)
    (hroots : ∀ root ∈ roots, Address.isHex root.address = true)
    (h : engine.Walks roots seen sites cache session) {after : Session}
    (hgather : engine.gather conditions session (engine.sortOut cache seen sites).missing [] [] =
      (.ok fetched, after)) :
    engine.Walks roots (engine.sortOut cache seen sites).seen
      ((engine.sortOut cache seen sites).next ++ (keepAll cache fetched).1)
      (keepAll cache fetched).2 after := by
  have hadvance := advance_of_reaches (reaches_of_gather (congrArg Prod.fst hgather))
  have hcanonical : ∀ site ∈ sites, site.IsCanonical := fun site hsite =>
    (h.reachable site hsite).isCanonical hengine hroots
  have hsound := hadvance.isSound h.sound hcanonical
  obtain ⟨asked, hasked⟩ := h.asked
  refine ⟨hsound, hadvance.pending h.pending, hadvance.owes h.pending h.owes, ?_,
    ⟨_, hasked.gather h.reachable hgather⟩⟩
  intro child hchild
  obtain ⟨site, hsite, contract, hcontract, hmem⟩ :=
    hadvance.next_spec (distinguishes_isCanonical engine) hsound hcanonical hchild
  exact .child (h.reachable site hsite) hcontract hmem

/-! ### Pins -/

/-- A cache with these contracts, which has pins of them only. -/
structure PinsOf (contracts : Table Fetched) (cache : Cache) : Prop where
  same : cache.contracts = contracts
  pins : ∀ key tree, cache.pin? key = some tree → contracts.contains key = true

end Engine

namespace Assembly

variable {engine : Engine} {context : Context} {contracts : Table Fetched} {cache : Cache}

theorem pinsOf_within {network : String} (depth : Nat) (path : List String) (key : String)
    (h : Engine.PinsOf contracts cache) :
    Engine.PinsOf contracts (within network context depth path key cache).2 := by
  induction depth generalizing path key cache with
  | zero => exact h
  | succ depth ih =>
      rw [within]
      split
      · exact h
      · split
        next => exact h
        next =>
          split
          · exact h
          · split
            next => exact h
            next contract hcontract =>
              have hafter := forEach_invariant (fun child (_ : child ∈ contract.children) _ hcache =>
                ih (path ++ [key]) (child.key network) hcache) h
              dsimp only
              split
              next failure after hchildren =>
                rw [hchildren] at hafter
                exact hafter
              next imports after hchildren =>
                rw [hchildren] at hafter
                refine ⟨hafter.same, ?_⟩
                intro other tree htree
                rw [Cache.pin?, Cache.setPin, Table.get?_insert] at htree
                split at htree
                next heq =>
                  rw [← heq, ← h.same]
                  exact Table.contains_of_get? hcontract
                next => exact hafter.pins other tree htree

end Assembly

namespace Engine

variable {engine : Engine} {conditions : Conditions} {roots more : List Site} {height : Nat}
  {cache : Cache} {session : Session}

/-! ### Runs -/

/-- What successful runs from these roots leave: a cache of all that the roots lead to, and one
call for each contract in it. -/
structure Settled (engine : Engine) (roots : List Site) (cache : Cache)
    (calls : List Call) : Prop where
  sound : cache.IsSound engine Site.IsCanonical
  pins : PinsOf cache.contracts cache
  owes : engine.Owes cache []
  held : ∀ root ∈ roots, cache.contracts.contains (root.key engine.network) = true
  asked : ∃ asked, engine.Asked roots asked cache calls

theorem settled_empty (engine : Engine) : engine.Settled [] {} [] where
  sound := Cache.isSound_empty engine _
  pins := ⟨rfl, nofun⟩
  owes := nofun
  held := nofun
  asked := ⟨[], rfl, .nil, fun _ => ⟨nofun, nofun⟩, nofun⟩

/-- A run that succeeds walks the graph and assembles the trees without a failure. -/
theorem computePins_eq_ok {records : List PinRecord}
    (h : (engine.computePins conditions roots height cache session).1 = .ok records) :
    ∃ after last trees final,
      engine.discover conditions (engine.unpinned cache roots) cache session =
        (.ok (), after, last) ∧
      engine.assembleRoots last.context (roots.map Site.normalized) after = (.ok trees, final) ∧
      engine.computePins conditions roots height cache session =
        (.ok (trees.map (PinRecord.ofTree height)), final, last) := by
  rw [computePins, ← unpinned] at h ⊢
  rcases hdiscover : engine.discover conditions (engine.unpinned cache roots) cache session with
    ⟨failure | ⟨⟩, after, last⟩
  · rw [hdiscover] at h
    cases h
  · rw [hdiscover] at h
    dsimp only at h ⊢
    rcases hassemble : engine.assembleRoots last.context (roots.map Site.normalized) after with
      ⟨failure | trees, final⟩
    · rw [hassemble] at h
      cases h
    · exact ⟨after, last, trees, final, rfl, hassemble, rfl⟩

/-- A walk starts from what earlier runs have left. -/
theorem Settled.walks (h : engine.Settled roots cache session.calls) :
    engine.Walks (roots ++ more) [] (engine.unpinned cache more) cache session where
  sound := h.sound
  pending := nofun
  owes := fun key contract hcontract child hchild =>
    .inl ((h.owes key contract hcontract child hchild).resolve_right (by simp))
  reachable := by
    intro site hsite
    obtain ⟨root, hroot, rfl⟩ := exists_of_mem_unpinned hsite
    exact .root (List.mem_append_right _ hroot)
  asked := by
    obtain ⟨asked, hasked⟩ := h.asked
    refine ⟨asked, hasked.calls, hasked.nodup, hasked.cached, ?_⟩
    exact fun site hsite => (hasked.reachable site hsite).mono fun root hroot =>
      List.mem_append_left _ hroot

/-- A walk that succeeds keeps what was cached and caches all that its contracts lead to. -/
theorem Settled.discover (hengine : engine.OnHex) (h : engine.Settled roots cache session.calls)
    (hroots : ∀ root ∈ roots ++ more, Address.isHex root.address = true) {after : Cache}
    {last : Session}
    (hdone : engine.discover conditions (engine.unpinned cache more) cache session =
      (.ok (), after, last)) :
    engine.Settled (roots ++ more) after last.calls := by
  have hpinned : (engine.discover conditions (engine.unpinned cache more) cache session).2.1.pins =
      cache.pins := pins_discoverWithin
  have hstart : engine.Walks (roots ++ more) [] (engine.unpinned cache more) cache session ∧
      cache.Keeps cache := ⟨h.walks, fun _ _ hkey => hkey, fun _ _ hkey => hkey⟩
  obtain ⟨keys, ⟨hwalk, hkeeps⟩, hpending, hmet⟩ := discover_ends
    (I := fun seen sites later session =>
      engine.Walks (roots ++ more) seen sites later session ∧ cache.Keeps later)
    (fun _ _ _ _ _ _ hwalk hgather => ⟨hwalk.1.step hengine hroots hgather,
      hwalk.2.trans (advance_of_reaches (reaches_of_gather (congrArg Prod.fst hgather))).keeps⟩)
    hstart (congrArg Prod.fst hdone)
  rw [hdone] at hwalk hkeeps hpending hpinned
  refine ⟨hwalk.sound, ⟨rfl, ?_⟩, hwalk.owes, ?_, hwalk.asked⟩
  · intro key tree htree
    rw [Cache.pin?, hpinned] at htree
    exact hkeeps.contains (h.pins.pins key tree htree)
  · intro root hroot
    rcases List.mem_append.1 hroot with hroot | hroot
    · exact hkeeps.contains (h.held root hroot)
    · rw [← Site.key_normalized]
      rcases pin?_or_mem_unpinned engine cache hroot with ⟨tree, hpin⟩ | hmem
      · exact hkeeps.contains (h.pins.pins _ tree hpin)
      · obtain ⟨contract, hcontract, -⟩ := hpending _ (hmet _ hmem)
        exact Table.contains_of_get? hcontract

/-- A successful run settles its roots too. -/
theorem Settled.run (hengine : engine.OnHex) (h : engine.Settled roots cache session.calls)
    (hroots : ∀ root ∈ roots ++ more, Address.isHex root.address = true)
    (hdone : ∃ records, (engine.computePins conditions more height cache session).1 =
      .ok records) :
    engine.Settled (roots ++ more) (engine.computePins conditions more height cache session).2.1
      (engine.computePins conditions more height cache session).2.2.calls := by
  obtain ⟨records, hrecords⟩ := hdone
  obtain ⟨after, last, trees, final, hdiscover, hassemble, hrun⟩ := computePins_eq_ok hrecords
  have hwalked := h.discover hengine hroots hdiscover
  have hpins : PinsOf after.contracts
      (engine.assembleRoots last.context (more.map Site.normalized) after).2 :=
    Assembly.forEach_invariant (fun site _ cache hcache => Assembly.pinsOf_within (cache.size + 1)
      [] (site.key engine.network) hcache) hwalked.pins
  have hsound : (engine.assembleRoots last.context (more.map Site.normalized) after).2.IsSound
      engine Site.IsCanonical := (assembleRoots_spec hwalked.sound).1.isSound
  rw [hassemble] at hpins hsound
  obtain ⟨asked, hasked⟩ := hwalked.asked
  rw [hrun]
  refine ⟨hsound, ?_, ?_, ?_, asked, hasked.calls, hasked.nodup, ?_, hasked.reachable⟩
  · rw [hpins.same]
    exact hpins
  · intro key contract hcontract
    rw [Cache.contract?, hpins.same] at hcontract
    rw [hpins.same]
    exact hwalked.owes key contract hcontract
  · rw [hpins.same]
    exact hwalked.held
  · rw [hpins.same]
    exact hasked.cached

/-- What the settled roots lead to is cached. -/
theorem Settled.contains (hengine : engine.OnHex) {calls : List Call}
    (h : engine.Settled roots cache calls)
    (hroots : ∀ root ∈ roots, Address.isHex root.address = true) {site : Site}
    (hsite : engine.Reachable roots site) :
    cache.contracts.contains (site.key engine.network) = true := by
  induction hsite with
  | @root root hroot =>
      rw [Site.key_normalized]
      exact h.held root hroot
  | @child site child contract hsite hcontract hchild ih =>
      obtain ⟨known, hknown⟩ := Option.isSome_iff_exists.1 ih
      obtain ⟨hkey, hcanonical, hanswered⟩ := h.sound.contracts _ known hknown
      rw [distinguishes_isCanonical engine _ _ hcanonical (hsite.isCanonical hengine hroots) hkey,
        hcontract] at hanswered
      cases hanswered
      exact (h.owes _ contract hknown child hchild).resolve_right (by simp)

/-- The roots of several successful runs, the cache that is left, and all calls that were made, the
latest first. -/
inductive Succeeds (engine : Engine) : List Site → Cache → List Call → Prop
  | start : Succeeds engine [] {} []
  | run {roots : List Site} {cache : Cache} {session : Session}
      (h : Succeeds engine roots cache session.calls) (conditions : Conditions)
      (more : List Site) (height : Nat)
      (hmore : ∀ root ∈ more, Address.isHex root.address = true)
      (hdone : ∃ records, (engine.computePins conditions more height cache session).1 =
        .ok records) :
      Succeeds engine (roots ++ more) (engine.computePins conditions more height cache session).2.1
        (engine.computePins conditions more height cache session).2.2.calls

theorem Succeeds.settled (hengine : engine.OnHex) {calls : List Call}
    (h : engine.Succeeds roots cache calls) :
    engine.Settled roots cache calls ∧
      ∀ root ∈ roots, Address.isHex root.address = true := by
  induction h with
  | start => exact ⟨settled_empty engine, nofun⟩
  | run _ conditions more height hmore hdone ih =>
      have hroots := List.forall_mem_append.2 ⟨ih.2, hmore⟩
      exact ⟨ih.1.run hengine hroots hdone, hroots⟩

/-- Runs over one cache that succeed ask for every contract their roots lead to, once, and for
nothing else. -/
theorem countP_asksFor_of_succeeds (hengine : engine.OnHex) {calls : List Call}
    (h : engine.Succeeds roots cache calls) :
    (∀ call ∈ calls, ∃ site, engine.Reachable roots site ∧ call = engine.fetchCall site) ∧
    ∀ site, engine.Reachable roots site →
      calls.countP (Call.asksFor (site.key engine.network)) = 1 := by
  obtain ⟨hsettled, hroots⟩ := h.settled hengine
  obtain ⟨asked, hasked⟩ := hsettled.asked
  constructor
  · intro call hcall
    rw [hasked.calls] at hcall
    obtain ⟨site, hsite, rfl⟩ := List.mem_map.1 hcall
    exact ⟨site, hasked.reachable site hsite, rfl⟩
  · intro site hsite
    have hmem := (hasked.cached _).1 (hsettled.contains hengine hroots hsite)
    have hcount := List.count_eq_one_of_mem hasked.nodup hmem
    rw [List.count, List.countP_map] at hcount
    rw [hasked.calls, List.countP_map]
    exact hcount

/-- A run for a token and one for a shop that imports it. -/
theorem countP_asksFor_of_succeeds_shopOn : ∃ cache calls,
    (shopOn "testnet" "0x1").Succeeds [⟨"Token", "01"⟩, ⟨"Shop", "0x2"⟩] cache calls ∧
    calls.countP (Call.asksFor (Site.key "testnet" ⟨"Token", "01"⟩)) = 1 := by
  have hex : (shopOn "testnet" "0x1").OnHex := onHex_shopOn (by decide) (by decide)
  have hshop : (shopOn "testnet" "0x1").IsPinTree Site.IsCanonical
      (shopTree ⟨"Shop", "0x0000000000000002"⟩ ⟨"Token", "0x0000000000000001"⟩) :=
    isPinTree_shopTree ⟨"Token", "testnet", "0x0000000000000001", none⟩ (by decide)
      (by decide) (by decide) (by decide) (by decide)
  have htoken := hshop.digests.2.2 _ (.head _)
  have hcalm : Conditions.IsCalm { answers := fun _ _ => none } := ⟨fun _ => rfl, fun _ => rfl⟩
  have hstart : (shopOn "testnet" "0x1").Succeeds [] {} ({} : Session).calls := .start
  have hrun := hstart.run { answers := fun _ _ => none } [⟨"Token", "01"⟩] 7 (by decide)
    (computePins_complete hcalm (distinguishes_isCanonical _) hex.hereditary rfl
      (Cache.isSound_empty _ _) (List.forall_mem_singleton.2 ⟨_, htoken, by decide⟩))
  obtain ⟨cache, session, hover, hfirst⟩ : ∃ (cache : Cache) (session : Session),
      session.context.isOver = false ∧
      (shopOn "testnet" "0x1").Succeeds [⟨"Token", "01"⟩] cache session.calls :=
    ⟨_, { calls := _ }, rfl, hrun⟩
  have hsecond := hfirst.run { answers := fun _ _ => none } [⟨"Shop", "0x2"⟩] 8 (by decide)
    (computePins_complete hcalm (distinguishes_isCanonical _) hex.hereditary hover
      (hfirst.settled hex).1.sound (List.forall_mem_singleton.2 ⟨_, hshop, by decide⟩))
  have hroot : (shopOn "testnet" "0x1").Reachable [⟨"Token", "01"⟩, ⟨"Shop", "0x2"⟩]
      (Site.normalized ⟨"Token", "01"⟩) := .root (.head _)
  have hcount := (countP_asksFor_of_succeeds hex hsecond).2 _ hroot
  rw [Site.key_normalized] at hcount
  exact ⟨_, _, hsecond, hcount⟩

end Engine

end Interaction
