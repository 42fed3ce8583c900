import Interaction.Proofs.Pinning.Level

/-!
# The walk over an import graph

Whatever happens during a walk, it leaves a sound cache sound and forgets nothing. A walk that
succeeds has met everything its contracts lead to, so the cache covers them: the bound on its
levels is never what ends it. Under calm conditions it succeeds if the chain answers for everything
that its contracts lead to, as it does if each of them has a pin tree.
-/

namespace Interaction

/-- The cache holds the contracts with these keys, and the keys of all that they import are among
them. -/
def Cache.Covers (network : String) (cache : Cache) (keys : List String) : Prop :=
  ∀ key ∈ keys, ∃ contract, cache.contract? key = some contract ∧
    ∀ child ∈ contract.children, child.key network ∈ keys

namespace Engine

variable {engine : Engine} {P Q : Site → Prop} {conditions : Conditions} {levels : Nat}
  {seen seen' : List String} {sites sites' : List Site} {cache cache' : Cache} {session : Session}

/-- Whether there is a pin tree of a site. -/
def HasTree (engine : Engine) (P : Site → Prop) (site : Site) : Prop :=
  ∃ tree, engine.IsPinTree P tree ∧ tree.site = site

theorem HasTree.holds {site : Site} (h : engine.HasTree P site) : P site := by
  obtain ⟨tree, htree, rfl⟩ := h
  exact htree.holds

theorem HasTree.answered {site : Site} (h : engine.HasTree P site) :
    ∃ contract, engine.inspect site = .ok contract := by
  obtain ⟨tree, htree, rfl⟩ := h
  cases htree with
  | @node contract imports holds answered leads below => exact ⟨contract, answered⟩

/-- What a contract with a pin tree imports has pin trees. -/
theorem HasTree.child (hdistinct : engine.Distinguishes P) (hhereditary : engine.Hereditary P)
    {site child : Site} {contract : Fetched} (h : engine.HasTree P site)
    (hcontract : engine.inspect site = .ok contract) (hchild : child ∈ contract.children) :
    engine.HasTree P child := by
  obtain ⟨tree, htree, rfl⟩ := h
  obtain ⟨below, hbelow, hat, -⟩ :=
    htree.exists_of_imports hdistinct hhereditary ⟨contract, hcontract, hchild⟩
  exact ⟨below, hbelow, hat⟩

/-- The chain answers for these sites and for all that they lead to. -/
structure Answers (engine : Engine) (P Q : Site → Prop) : Prop where
  holds : ∀ site, Q site → P site
  answered : ∀ site, Q site → ∃ contract, engine.inspect site = .ok contract
  child : ∀ site contract, Q site → engine.inspect site = .ok contract →
    ∀ child ∈ contract.children, Q child

theorem answers_hasTree (hdistinct : engine.Distinguishes P) (hhereditary : engine.Hereditary P) :
    engine.Answers P (engine.HasTree P) where
  holds := fun _ h => h.holds
  answered := fun _ h => h.answered
  child := fun _ _ h hcontract _ hchild => h.child hdistinct hhereditary hcontract hchild

namespace Advance

theorem isSound (h : engine.Advance seen sites cache seen' sites' cache')
    (hcache : cache.IsSound engine P) (hsites : ∀ site ∈ sites, P site) :
    cache'.IsSound engine P where
  contracts := by
    intro key contract hcontract
    rcases h.origin key contract hcontract with hold | ⟨site, hsite, hkey, hanswered⟩
    · exact hcache.contracts key contract hold
    · rw [site_of_inspect hanswered]
      exact ⟨hkey, hsites site hsite, hanswered⟩
  pins := by
    intro key tree htree
    rw [Cache.pin?, h.pins] at htree
    exact hcache.pins key tree htree

/-- The next level is what contracts that the chain answers for import. -/
theorem next_spec (hdistinct : engine.Distinguishes P)
    (h : engine.Advance seen sites cache seen' sites' cache') (hcache : cache'.IsSound engine P)
    (hsites : ∀ site ∈ sites, P site) {child : Site} (hchild : child ∈ sites') :
    ∃ site ∈ sites, ∃ contract, engine.inspect site = .ok contract ∧
      child ∈ contract.children := by
  obtain ⟨site, hsite, -, contract, hcontract, hmem⟩ := h.next_mem child hchild
  obtain ⟨hkey, hholds, hanswered⟩ := hcache.contracts _ contract hcontract
  rw [hdistinct _ _ hholds (hsites site hsite) hkey] at hanswered
  exact ⟨site, hsite, contract, hanswered, hmem⟩

theorem next_holds (hhereditary : engine.Hereditary P)
    (h : engine.Advance seen sites cache seen' sites' cache') (hcache : cache'.IsSound engine P) :
    ∀ child ∈ sites', P child := by
  intro child hchild
  obtain ⟨site, -, -, contract, hcontract, hmem⟩ := h.next_mem child hchild
  exact hhereditary _ contract (hcache.contracts _ contract hcontract).2.2 child hmem

/-- A step that meets nothing new has nowhere to go on to. -/
theorem eq_nil_or_length_lt (h : engine.Advance seen sites cache seen' sites' cache')
    (hnodup : seen.Nodup) : sites' = [] ∨ seen.length < seen'.length := by
  by_cases hnew : ∃ site ∈ sites, site.key engine.network ∉ seen
  · obtain ⟨site, hsite, hnew⟩ := hnew
    have hsubset : site.key engine.network :: seen ⊆ seen' := by
      intro key hkey
      rw [h.mem_seen]
      rcases List.mem_cons.1 hkey with rfl | hkey
      · exact .inr ⟨site, hsite, rfl⟩
      · exact .inl hkey
    exact .inr ((List.nodup_cons.2 ⟨hnew, hnodup⟩).length_le_of_subset hsubset)
  · left
    rw [List.eq_nil_iff_forall_not_mem]
    intro child hchild
    obtain ⟨site, hsite, hfresh, -⟩ := h.next_mem child hchild
    exact hnew ⟨site, hsite, hfresh⟩

end Advance

/-- What was met so far is in the cache, and what it imports was met or comes next. -/
def Pending (engine : Engine) (seen : List String) (sites : List Site) (cache : Cache) : Prop :=
  ∀ key ∈ seen, ∃ contract, cache.contract? key = some contract ∧
    ∀ child ∈ contract.children, child.key engine.network ∈ seen ∨
      ∃ site ∈ sites, site.key engine.network = child.key engine.network

/-- With nothing to come, everything is covered. -/
theorem Pending.covers (h : engine.Pending seen [] cache) : cache.Covers engine.network seen := by
  intro key hkey
  obtain ⟨contract, hcontract, hchildren⟩ := h key hkey
  refine ⟨contract, hcontract, ?_⟩
  intro child hchild
  exact (hchildren child hchild).resolve_right (by simp)

theorem Advance.pending (h : engine.Advance seen sites cache seen' sites' cache')
    (hpending : engine.Pending seen sites cache) : engine.Pending seen' sites' cache' := by
  intro key hkey
  by_cases hold : key ∈ seen
  · obtain ⟨contract, hcontract, hchildren⟩ := hpending key hold
    refine ⟨contract, h.grows key contract hcontract, ?_⟩
    intro child hchild
    exact .inl ((h.mem_seen _).2 (hchildren child hchild))
  · obtain ⟨site, hsite, rfl⟩ := ((h.mem_seen key).1 hkey).resolve_left hold
    obtain ⟨contract, hcontract, hchildren⟩ := h.placed site hsite hold
    exact ⟨contract, hcontract, fun child hchild => .inr ⟨child, hchildren child hchild, rfl⟩⟩

/-- Whatever happens during a walk and beside it, a sound cache stays sound. -/
theorem isSound_of_reaches (hhereditary : engine.Hereditary P) (hcache : cache.IsSound engine P)
    (hsites : ∀ site ∈ sites, P site) {result : Except Failure Unit} {after : Cache}
    (h : (engine.discoverWithinCourse conditions levels seen sites cache session).Reaches
      (result, after)) : after.IsSound engine P := by
  induction levels generalizing seen sites cache session with
  | zero =>
      cases h
      exact hcache
  | succ levels ih =>
      rw [discoverWithinCourse] at h
      split at h
      · cases h
        exact hcache
      split at h
      · cases h
        exact hcache
      obtain ⟨failure | fetched, later, hgather, h⟩ := Course.Reaches.of_andThen h
      · cases h
        exact hcache
      · have hadvance := advance_of_reaches hgather
        have hsound := hadvance.isSound hcache hsites
        exact ih hsound (hadvance.next_holds hhereditary hsound) h

/-- What a walk comes to alone is among what it can come to in company. -/
theorem reaches_discoverWithin :
    (engine.discoverWithinCourse conditions levels seen sites cache session).Reaches
      ((engine.discoverWithin conditions levels seen sites cache session).1,
        (engine.discoverWithin conditions levels seen sites cache session).2.1) := by
  have hreaches := Course.reaches_run
    (engine.discoverWithinCourse conditions levels seen sites cache session) session
  rwa [run_discoverWithinCourse] at hreaches

/-- A walk forgets no contract and puts together no pins, whatever goes on beside it. -/
theorem keeps_of_reaches {result : Except Failure Unit} {after : Cache}
    (h : (engine.discoverWithinCourse conditions levels seen sites cache session).Reaches
      (result, after)) :
    (∀ key contract, cache.contract? key = some contract →
        after.contract? key = some contract) ∧ after.pins = cache.pins := by
  induction levels generalizing seen sites cache session with
  | zero =>
      cases h
      exact ⟨fun _ _ hkey => hkey, rfl⟩
  | succ levels ih =>
      rw [discoverWithinCourse] at h
      split at h
      · cases h
        exact ⟨fun _ _ hkey => hkey, rfl⟩
      split at h
      · cases h
        exact ⟨fun _ _ hkey => hkey, rfl⟩
      obtain ⟨failure | fetched, later, hgather, h⟩ := Course.Reaches.of_andThen h
      · cases h
        exact ⟨fun _ _ hkey => hkey, rfl⟩
      · have hadvance := advance_of_reaches hgather
        obtain ⟨hgrows, hpins⟩ := ih h
        exact ⟨fun key contract hkey => hgrows key contract (hadvance.grows key contract hkey),
          hpins.trans hadvance.pins⟩

theorem pins_discoverWithin :
    (engine.discoverWithin conditions levels seen sites cache session).2.1.pins = cache.pins :=
  (keeps_of_reaches reaches_discoverWithin).2

/-! ### The levels of a walk -/

/-- The keys of the contracts that are cached or deployed. -/
def keysFrom (engine : Engine) (cache : Cache) : List String :=
  cache.contracts.names ++ engine.chain.sites.map (Site.key engine.network)

theorem length_keysFrom (engine : Engine) (cache : Cache) :
    (engine.keysFrom cache).length = cache.size + engine.chain.size := by
  rw [keysFrom, List.length_append, Table.names, List.length_map, List.length_map,
    Chain.length_sites, Cache.size, Table.size]

theorem mem_keysFrom_of_inspect {start : Cache} {site : Site} {contract : Fetched}
    (h : engine.inspect site = .ok contract) :
    site.key engine.network ∈ engine.keysFrom start := by
  obtain ⟨code, text, children, hcode, -⟩ := inspect_eq_ok_iff.1 h
  rw [← Site.key_normalized]
  exact List.mem_append_right _ (List.mem_map_of_mem (Chain.mem_sites_of_fetch hcode))

/-- A walk that has so many levels left is not cut short. What it has met is cached, all that is
cached was so at the start or is deployed, and there is nothing to come or there are more levels
left than keys to be met for the first time. -/
structure Affords (engine : Engine) (start : Cache) (levels : Nat) (seen : List String)
    (sites : List Site) (cache : Cache) : Prop where
  cached : ∀ key contract, cache.contract? key = some contract → key ∈ engine.keysFrom start
  nodup : seen.Nodup
  pending : engine.Pending seen sites cache
  levels : sites = [] ∨ (engine.keysFrom start).length < levels + seen.length

namespace Affords

variable {start : Cache}

theorem of_lt (h : cache.size + engine.chain.size < levels) :
    engine.Affords cache levels [] sites cache where
  cached := fun _ _ hcontract =>
    List.mem_append_left _ (Table.contains_iff_mem_names.1 (Table.contains_of_get? hcontract))
  nodup := .nil
  pending := nofun
  levels := .inr (by rwa [length_keysFrom])

/-- Without levels left there is nothing to come. -/
theorem eq_nil (h : engine.Affords start 0 seen sites cache) : sites = [] := by
  have hsubset : seen ⊆ engine.keysFrom start := by
    intro key hkey
    obtain ⟨contract, hcontract, -⟩ := h.pending key hkey
    exact h.cached key contract hcontract
  have hbound := h.nodup.length_le_of_subset hsubset
  exact h.levels.resolve_right (by omega)

/-- A step meets a key for the first time or has nowhere to go on to. -/
theorem step (h : engine.Affords start (levels + 1) seen sites cache) (hsome : sites ≠ [])
    (hadvance : engine.Advance seen sites cache seen' sites' cache') :
    engine.Affords start levels seen' sites' cache' where
  cached := by
    intro key contract hcontract
    rcases hadvance.origin key contract hcontract with hold | ⟨site, -, rfl, hsite⟩
    · exact h.cached key contract hold
    · exact mem_keysFrom_of_inspect hsite
  nodup := hadvance.nodup h.nodup
  pending := hadvance.pending h.pending
  levels := by
    have hmany := h.levels.resolve_left hsome
    refine (hadvance.eq_nil_or_length_lt h.nodup).imp_right ?_
    omega

end Affords

/-- A walk that succeeds and is not cut short ends with nothing to come, and what every step of it
keeps holds at its end. -/
theorem discoverWithin_ends {I : List String → List Site → Cache → Session → Prop}
    (hstep : ∀ seen sites cache session fetched after, I seen sites cache session →
      engine.gather conditions session (engine.sortOut cache seen sites).missing [] [] =
        (.ok fetched, after) →
      I (engine.sortOut cache seen sites).seen
        ((engine.sortOut cache seen sites).next ++ (keepAll cache fetched).1)
        (keepAll cache fetched).2 after)
    {start : Cache} (haffords : engine.Affords start levels seen sites cache)
    (hstart : I seen sites cache session)
    (h : (engine.discoverWithin conditions levels seen sites cache session).1 = .ok ()) :
    ∃ keys, I keys [] (engine.discoverWithin conditions levels seen sites cache session).2.1
        (engine.discoverWithin conditions levels seen sites cache session).2.2 ∧
      engine.Pending keys []
        (engine.discoverWithin conditions levels seen sites cache session).2.1 ∧
      (∀ key ∈ seen, key ∈ keys) ∧ ∀ site ∈ sites, site.key engine.network ∈ keys := by
  fun_induction discoverWithin engine conditions levels seen sites cache session with
  | case1 seen sites cache session =>
      cases haffords.eq_nil
      exact ⟨seen, hstart, haffords.pending, fun key hkey => hkey, by simp⟩
  | case2 levels seen cache session =>
      exact ⟨seen, hstart, haffords.pending, fun key hkey => hkey, by simp⟩
  | case3 => cases h
  | case4 => cases h
  | case5 levels seen sites cache session hsome hover level fetched after hgather kept ih =>
      have hadvance := advance_of_reaches (reaches_of_gather (congrArg Prod.fst hgather))
      obtain ⟨keys, hend, hcovers, hseen, -⟩ :=
        ih (haffords.step hsome hadvance) (hstep _ _ _ _ _ _ hstart hgather) h
      refine ⟨keys, hend, hcovers, ?_, ?_⟩
      · exact fun key hkey => hseen key ((hadvance.mem_seen key).2 (.inl hkey))
      · exact fun site hsite => hseen _ ((hadvance.mem_seen _).2 (.inr ⟨site, hsite, rfl⟩))

/-- Whatever discovery finds lies among the cached contracts and those of the chain, so its levels
are never too few. -/
theorem discover_ends {I : List String → List Site → Cache → Session → Prop}
    (hstep : ∀ seen sites cache session fetched after, I seen sites cache session →
      engine.gather conditions session (engine.sortOut cache seen sites).missing [] [] =
        (.ok fetched, after) →
      I (engine.sortOut cache seen sites).seen
        ((engine.sortOut cache seen sites).next ++ (keepAll cache fetched).1)
        (keepAll cache fetched).2 after)
    (hstart : I [] sites cache session)
    (h : (engine.discover conditions sites cache session).1 = .ok ()) :
    ∃ keys, I keys [] (engine.discover conditions sites cache session).2.1
        (engine.discover conditions sites cache session).2.2 ∧
      engine.Pending keys [] (engine.discover conditions sites cache session).2.1 ∧
      ∀ site ∈ sites, site.key engine.network ∈ keys := by
  obtain ⟨keys, hend, hpending, -, hsites⟩ :=
    discoverWithin_ends hstep (.of_lt (by omega)) hstart h
  exact ⟨keys, hend, hpending, hsites⟩

/-- A walk that succeeds and is not cut short has met all that its contracts lead to, whatever goes
on beside it. -/
theorem covers_of_reaches {start after : Cache}
    (haffords : engine.Affords start levels seen sites cache)
    (h : (engine.discoverWithinCourse conditions levels seen sites cache session).Reaches
      (.ok (), after)) :
    ∃ keys, after.Covers engine.network keys ∧ (∀ key ∈ seen, key ∈ keys) ∧
      ∀ site ∈ sites, site.key engine.network ∈ keys := by
  induction levels generalizing seen sites cache session with
  | zero =>
      cases h
      cases haffords.eq_nil
      exact ⟨seen, haffords.pending.covers, fun key hkey => hkey, by simp⟩
  | succ levels ih =>
      rw [discoverWithinCourse] at h
      split at h
      next hnone =>
        cases h
        subst hnone
        exact ⟨seen, haffords.pending.covers, fun key hkey => hkey, by simp⟩
      next hsome =>
        split at h
        · cases h
        obtain ⟨failure | fetched, later, hgather, h⟩ := Course.Reaches.of_andThen h
        · cases h
        · have hadvance := advance_of_reaches hgather
          obtain ⟨keys, hcovers, hseen, -⟩ := ih (haffords.step hsome hadvance) h
          refine ⟨keys, hcovers, ?_, ?_⟩
          · exact fun key hkey => hseen key ((hadvance.mem_seen key).2 (.inl hkey))
          · exact fun site hsite => hseen _ ((hadvance.mem_seen _).2 (.inr ⟨site, hsite, rfl⟩))

/-- A walk that succeeds has met all that its contracts lead to. -/
theorem discover_covers (h : (engine.discover conditions sites cache session).1 = .ok ()) :
    ∃ keys, (engine.discover conditions sites cache session).2.1.Covers engine.network keys ∧
      ∀ site ∈ sites, site.key engine.network ∈ keys := by
  have hreaches : (engine.discoverWithinCourse conditions (cache.size + engine.chain.size + 2) []
      sites cache session).Reaches
        (.ok (), (engine.discover conditions sites cache session).2.1) := by
    rw [← h]
    exact reaches_discoverWithin
  obtain ⟨keys, hcovers, -, hsites⟩ := covers_of_reaches (.of_lt (by omega)) hreaches
  exact ⟨keys, hcovers, hsites⟩

section Calm

variable (hcalm : conditions.IsCalm)

include hcalm

/-- Nothing that happens during a walk ends the build. -/
theorem context_discoverWithin :
    (engine.discoverWithin conditions levels seen sites cache session).2.2.context =
      session.context := by
  fun_induction discoverWithin engine conditions levels seen sites cache session with
  | case1 => rfl
  | case2 => rfl
  | case3 => rfl
  | case4 levels seen sites cache session hsome hover level failure after hgather =>
      have hcontext : (engine.gather conditions session level.missing [] []).2.context =
          session.context := context_gather hcalm
      rwa [hgather] at hcontext
  | case5 levels seen sites cache session hsome hover level fetched after hgather kept ih =>
      have hcontext : (engine.gather conditions session level.missing [] []).2.context =
          session.context := context_gather hcalm
      rw [hgather] at hcontext
      exact ih.trans hcontext

/-- A walk succeeds if the chain answers for all that its contracts lead to. -/
theorem discoverWithin_complete (hdistinct : engine.Distinguishes P)
    (hanswers : engine.Answers P Q) (hover : session.context.isOver = false)
    (hcache : cache.IsSound engine P) (hsites : ∀ site ∈ sites, Q site) :
    (engine.discoverWithin conditions levels seen sites cache session).1 = .ok () := by
  fun_induction discoverWithin engine conditions levels seen sites cache session with
  | case1 => rfl
  | case2 => rfl
  | case3 levels seen sites cache session hsome hover' =>
      rw [hover] at hover'
      cases hover'
  | case4 levels seen sites cache session hsome hover' level failure after hgather =>
      have hlevel := sortedOut_sortOut engine cache seen sites
      have hmissing : ∀ entry ∈ level.missing, ∃ contract,
          engine.inspect entry.2 = .ok contract := fun entry hentry =>
        hanswers.answered _ (hsites entry.2 (hlevel.missing_mem entry hentry).1)
      obtain ⟨fetched, hfetched⟩ : ∃ fetched,
          (engine.gather conditions session level.missing [] []).1 = .ok fetched :=
        gather_complete hcalm hover hmissing (by simp)
      rw [hgather] at hfetched
      cases hfetched
  | case5 levels seen sites cache session hsome hover' level fetched after hgather kept ih =>
      have hadvance := advance_of_reaches (reaches_of_gather (congrArg Prod.fst hgather))
      have hholds : ∀ site ∈ sites, P site :=
        fun site hsite => hanswers.holds site (hsites site hsite)
      have hsound := hadvance.isSound hcache hholds
      refine ih ?_ hsound ?_
      · have hcontext : (engine.gather conditions session level.missing [] []).2.context =
            session.context := context_gather hcalm
        rw [hgather] at hcontext
        rw [hcontext]
        exact hover
      · intro child hchild
        obtain ⟨site, hsite, contract, hcontract, hmem⟩ :=
          hadvance.next_spec hdistinct hsound hholds hchild
        exact hanswers.child site contract (hsites site hsite) hcontract child hmem

end Calm

end Engine

end Interaction
