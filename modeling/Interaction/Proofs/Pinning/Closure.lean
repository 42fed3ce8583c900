import Interaction.Proofs.Pinning.Cycle
import Interaction.Proofs.Pinning.Trail

/-!
# Discovered graphs are closed

A cache may hold contracts whose imports are missing from it, since an earlier run stopped between
two levels. A walk goes through cached contracts as it goes through fetched ones, so when it
succeeds, whatever its cache was, all is cached that its sites lead to through cached contracts.
Assembling asks for nothing else, and so never for a contract that was not fetched.
-/

namespace Interaction

namespace Cache

variable {network key : String} {cache : Cache} {sites : List Site}

/-- The keys that some sites lead to through what cached contracts import. -/
inductive Leads (network : String) (cache : Cache) (sites : List Site) : String → Prop
  | site {site : Site} (h : site ∈ sites) : Leads network cache sites (site.key network)
  | child {key : String} {contract : Fetched} {child : Site} (h : Leads network cache sites key)
      (hcontract : cache.contract? key = some contract) (hchild : child ∈ contract.children) :
      Leads network cache sites (child.key network)

/-- What covers some sites covers all that they lead to. -/
theorem Covers.mem_of_leads {keys : List String} (h : cache.Covers network keys)
    (hsites : ∀ site ∈ sites, site.key network ∈ keys) (hkey : cache.Leads network sites key) :
    key ∈ keys := by
  induction hkey with
  | site hsite => exact hsites _ hsite
  | child _ hcontract hchild ih =>
      obtain ⟨known, hknown, hchildren⟩ := h _ ih
      cases hknown.symm.trans hcontract
      exact hchildren _ hchild

end Cache

/-- Whether a contract was asked for before it was discovered. -/
def Failure.isNeverFetched : Failure → Bool
  | .fetch _ _ _ .neverFetched => true
  | _ => false

/-! ### Assembling what is covered -/

namespace Assembly

variable {network key : String} {context : Context} {cache : Cache} {keys : List String}
  {failure : Failure}

theorem Grows.covers {cache' : Cache} (h : Grows cache cache')
    (hcovers : cache.Covers network keys) : cache'.Covers network keys := by
  intro key hkey
  rw [Cache.contract?, h.contracts]
  exact hcovers key hkey

/-- A contract that is covered is not missing, nor is any that it leads to. -/
theorem within_covered (depth : Nat) (path : List String) (hcovers : cache.Covers network keys)
    (hkey : key ∈ keys) (h : (within network context depth path key cache).1 = .error failure) :
    failure.isNeverFetched = false := by
  induction depth generalizing path key cache failure with
  | zero =>
      cases h
      rfl
  | succ depth ih =>
      rw [within] at h
      split at h
      · cases h
        rfl
      split at h
      next => cases h
      next =>
        split at h
        · cases h
          rfl
        obtain ⟨contract, hcontract, hchildren⟩ := hcovers key hkey
        rw [hcontract] at h
        dsimp only at h
        split at h
        next reason after hfailed =>
          cases h
          refine forEach_error (I := Grows cache)
            (R := fun failure => failure.isNeverFetched = false) ?_ (.refl cache)
            (congrArg Prod.fst hfailed)
          intro child hchild after hafter
          refine ⟨hafter.trans (grows_within _ _ _ _ _ after), fun reason hreason => ?_⟩
          exact ih (path ++ [key]) (hafter.covers hcovers) (hchildren child hchild) hreason
        next => cases h

/-- Nor is a contract missing that has its pin. -/
theorem assemble_pinned {tree : PinTree} (hpin : cache.pin? key = some tree)
    (h : (assemble network context key cache).1 = .error failure) :
    failure.isNeverFetched = false := by
  rw [assemble, within] at h
  split at h
  · cases h
    rfl
  · rw [hpin] at h
    cases h

end Assembly

/-! ### What a walk leaves -/

namespace Engine

variable {engine : Engine} {conditions : Conditions} {context : Context} {roots : List Site}
  {height : Nat} {start cache : Cache} {now : Session} {failure : Failure}

/-- Roots are not missing if each has its pin or is covered. -/
theorem assembleRoots_covered {keys : List String} (hcovers : cache.Covers engine.network keys)
    (hroots : ∀ root ∈ roots, (cache.pin? (root.key engine.network)).isSome = true ∨
      root.key engine.network ∈ keys)
    (h : (engine.assembleRoots context roots cache).1 = .error failure) :
    failure.isNeverFetched = false := by
  refine Assembly.forEach_error (I := Assembly.Grows cache)
    (R := fun failure => failure.isNeverFetched = false) ?_ (.refl cache) h
  intro root hroot after hafter
  refine ⟨hafter.trans (Assembly.grows_within _ _ _ _ _ after), fun reason hreason => ?_⟩
  rcases hroots root hroot with hpinned | hkey
  · obtain ⟨tree, htree⟩ := Option.isSome_iff_exists.1 (hafter.pins _ hpinned)
    exact Assembly.assemble_pinned htree hreason
  · exact Assembly.within_covered _ _ (hafter.covers hcovers) hkey hreason

/-- What a walk from some sites has made of a cache if it leaves nothing out. -/
structure IsClosed (engine : Engine) (start : Cache) (sites : List Site) (cache : Cache) :
    Prop where
  keeps : start.Keeps cache
  cached : ∀ site ∈ sites, cache.contracts.contains (site.key engine.network) = true
  /-- All is present that the sites lead to. -/
  closed : ∀ key, cache.Leads engine.network sites key → cache.contracts.contains key = true
  /-- No contract is missing for roots that had their pins or that the sites lead to. -/
  assembled : ∀ context roots, (∀ root ∈ roots,
      (start.pin? (root.key engine.network)).isSome = true ∨
        cache.Leads engine.network sites (root.key engine.network)) →
    ∀ failure, (engine.assembleRoots context roots cache).1 = .error failure →
      failure.isNeverFetched = false

/-- A walk that succeeds leaves a closed graph, whatever its cache was and whatever goes on beside
it. -/
theorem isClosed_of_reaches {sites : List Site}
    (h : (engine.discoverWithinCourse conditions (start.size + engine.chain.size + 2) [] sites start
      now).Reaches (.ok (), cache)) : engine.IsClosed start sites cache := by
  obtain ⟨hgrows, hpins⟩ := keeps_of_reaches h
  obtain ⟨keys, hcovers, -, hsites⟩ := covers_of_reaches (.of_lt (by omega)) h
  have hcontains {key : String} (hkey : key ∈ keys) : cache.contracts.contains key = true := by
    obtain ⟨contract, hcontract, -⟩ := hcovers key hkey
    exact Table.contains_of_get? hcontract
  have hpin? (key : String) : cache.pin? key = start.pin? key := by
    rw [Cache.pin?, hpins, Cache.pin?]
  refine ⟨⟨hgrows, fun key tree hkey => (hpin? key).trans hkey⟩,
    fun site hsite => hcontains (hsites site hsite),
    fun key hkey => hcontains (hcovers.mem_of_leads hsites hkey), ?_⟩
  intro context roots hroots failure hfailure
  refine assembleRoots_covered hcovers (fun root hroot => ?_) hfailure
  rw [hpin?]
  exact (hroots root hroot).imp_right (hcovers.mem_of_leads hsites)

/-! ### What a walk fails with -/

theorem isNeverFetched_of_resolve {i : Import}
    (h : engine.registry.resolve i engine.network = .error failure) :
    failure.isNeverFetched = false := by
  unfold Registry.resolve at h
  split at h
  · unfold Registry.resolveBare at h
    split at h
    · cases h
      rfl
    · split at h
      · cases h
        rfl
      · cases h
  · cases h

/-- What a chain answers is never that a contract was not fetched. -/
theorem isNeverFetched_of_inspect {site : Site} (h : engine.inspect site = .error failure) :
    failure.isNeverFetched = false := by
  rcases bind_eq_error_iff.1 h with hfetch | ⟨code, -, hread⟩
  · unfold Chain.fetch at hfetch
    split at hfetch
    · cases hfetch
      rfl
    · split at hfetch
      · cases hfetch
      · cases hfetch
        rfl
  · unfold read at hread
    split at hread
    · cases hread
      rfl
    · obtain ⟨i, -, hi⟩ := exists_of_mapM_eq_error (map_eq_error_iff.1 hread)
      exact isNeverFetched_of_resolve (map_eq_error_iff.1 hi)

theorem isNeverFetched_of_start {session : Session} {key : String} {site : Site}
    (h : (engine.start conditions session key site).1.answer = .error failure) :
    failure.isNeverFetched = false := by
  unfold start at h
  split at h
  · cases h
    rfl
  · dsimp only at h
    split at h
    · cases h
      rfl
    · exact isNeverFetched_of_inspect h

/-- So no level fails with that, whatever goes on beside it. -/
theorem isNeverFetched_of_gather (waiting : List (String × Site)) (underWay : List Task)
    (arrived : List (String × Fetched)) :
    (engine.gatherCourse conditions waiting underWay arrived).Reaches (.error failure) →
      (∀ task ∈ underWay, ∀ reason, task.answer = .error reason →
        reason.isNeverFetched = false) → failure.isNeverFetched = false := by
  refine gatherCourse_induction engine conditions (motive := fun _ underWay _ level =>
    level.Reaches (.error failure) → (∀ task ∈ underWay, ∀ reason, task.answer = .error reason →
      reason.isNeverFetched = false) → failure.isNeverFetched = false) ?_ ?_
      waiting underWay arrived
  · intro arrived hreaches
    cases hreaches
  · intro waiting underWay arrived leaves goes hcourse hevent hreaches hunderWay
    cases hreaches with
    | event session hreaches =>
        cases hevent session with
        | fails i task reason hchoose htask harrival hlater hrest =>
            rw [hrest] at hreaches
            cases hreaches
            unfold Task.arrival at harrival
            split at harrival
            · cases harrival
              rfl
            · exact hunderWay task (List.mem_of_getElem? htask) failure harrival
        | answers i task contract hchoose htask harrival hlater ih =>
            exact ih hreaches fun other hother => hunderWay other (List.mem_of_mem_eraseIdx hother)
        | starts key site more hwaiting hchoose hlater hahead ih =>
            refine ih hreaches fun task htask reason hreason => ?_
            rcases List.mem_append.1 htask with htask | htask
            · exact hunderWay task htask reason hreason
            · rw [List.mem_singleton.1 htask] at hreason
              exact isNeverFetched_of_start hreason

theorem isNeverFetched_of_discover {levels : Nat} {seen : List String} {sites : List Site}
    (h : (engine.discoverWithinCourse conditions levels seen sites start now).Reaches
      (.error failure, cache)) : failure.isNeverFetched = false := by
  induction levels generalizing seen sites start now with
  | zero => cases h
  | succ levels ih =>
      rw [discoverWithinCourse] at h
      split at h
      · cases h
      split at h
      · cases h
        rfl
      obtain ⟨reason | fetched, later, hgather, h⟩ := Course.Reaches.of_andThen h
      · cases h
        exact isNeverFetched_of_gather _ _ _ hgather fun _ htask => absurd htask List.not_mem_nil
      · exact ih h

/-! ### Runs -/

/-- A discovered graph is complete. Whatever a cache holds, as runs of the engine may leave it that
succeed, fail or are cancelled, a walk that succeeds makes it hold all that its sites lead to. So no
run fails because a contract was never fetched, in whatever order its fetches are answered and
whatever goes on beside it. -/
theorem discover_isClosed (engine : Engine) (conditions : Conditions) (cache : Cache) :
    (∀ sites session, (engine.discover conditions sites cache session).1 = .ok () →
      engine.IsClosed cache sites (engine.discover conditions sites cache session).2.1) ∧
    ∀ roots height now failure after, (engine.computePinsCourse conditions roots height cache
      now).Reaches (.error failure, after) → failure.isNeverFetched = false := by
  constructor
  · intro sites session h
    have hreaches : (engine.discoverWithinCourse conditions (cache.size + engine.chain.size + 2) []
        sites cache session).Reaches
        (.ok (), (engine.discover conditions sites cache session).2.1) := by
      rw [← h]
      exact reaches_discoverWithin
    exact isClosed_of_reaches hreaches
  · intro roots height now failure after h
    obtain ⟨⟨reason | ⟨⟩, found⟩, later, hdiscover, h⟩ := Course.Reaches.of_andThen h
    · cases h
      exact isNeverFetched_of_discover hdiscover
    · have hclosed : engine.IsClosed cache (engine.unpinned cache roots) found :=
        isClosed_of_reaches hdiscover
      rw [Course.reaches_ended, Prod.mk.injEq, map_eq_error_iff] at h
      refine hclosed.assembled later.context (roots.map Site.normalized) ?_ failure h.1
      intro site hsite
      obtain ⟨root, hroot, rfl⟩ := List.mem_map.1 hsite
      rcases pin?_or_mem_unpinned engine cache hroot with ⟨tree, hpin⟩ | hmem
      · exact .inl (by rw [hpin, Option.isSome_some])
      · exact .inr (.site hmem)

/-- What is cached of the market when its import of bids has not been followed yet. -/
def halfway : Cache :=
  (Cache.keep {} ((⟨"Market", "0x0000000000000001"⟩ : Site).key "testnet")
    ⟨⟨"Market", "0x0000000000000001"⟩, Digest.ofText bidText, [⟨"Bid", "0x0000000000000002"⟩]⟩).2

/-- So it is left by a run that is cancelled while the market is fetched. -/
theorem computePins_halfway : ∃ last,
    market.computePins { cancels := fun _ => true } [⟨"Market", "0x1"⟩] 7 {} {} =
      (.error .cancelled, halfway, last) := by
  obtain ⟨hmarket, -, -⟩ := inspect_market
  have hunpinned : market.unpinned {} [⟨"Market", "0x1"⟩] =
      [⟨"Market", "0x0000000000000001"⟩] := by decide +kernel
  have hdiscover : ∃ last, market.discover { cancels := fun _ => true }
      [⟨"Market", "0x0000000000000001"⟩] {} {} = (.error .cancelled, halfway, last) := by
    rw [discover, discoverWithin_single hmarket rfl rfl List.not_mem_nil rfl, discoverWithin,
      if_neg (List.cons_ne_nil _ _)]
    exact ⟨_, if_pos rfl⟩
  obtain ⟨last, hlast⟩ := hdiscover
  rw [computePins, ← unpinned, hunpinned, hlast]
  exact ⟨last, rfl⟩

/-- The bids that the cancelled run has left out are fetched when the market is walked again. -/
theorem discover_isClosed_halfway :
    (∃ last, market.computePins { cancels := fun _ => true } [⟨"Market", "0x1"⟩] 7 {} {} =
      (.error .cancelled, halfway, last)) ∧
    halfway.contracts.contains ((⟨"Bid", "0x0000000000000002"⟩ : Site).key "testnet") = false ∧
    ∃ after last, market.discover {} [⟨"Market", "0x0000000000000001"⟩] halfway {} =
        (.ok (), after, last) ∧
      market.IsClosed halfway [⟨"Market", "0x0000000000000001"⟩] after ∧
      after.contracts.contains ((⟨"Bid", "0x0000000000000002"⟩ : Site).key "testnet") = true := by
  obtain ⟨hmarket, -, -⟩ := inspect_market
  have hsound : halfway.IsSound market Site.IsCanonical :=
    (Cache.isSound_empty market Site.IsCanonical).keep (by decide) hmarket
  have hdone : (market.discover {} [⟨"Market", "0x0000000000000001"⟩] halfway {}).1 = .ok () :=
    discoverWithin_complete ⟨fun _ => rfl, fun _ => rfl⟩ (distinguishes_isCanonical market)
      answers_market rfl hsound (by decide)
  have hclosed := (discover_isClosed market {} halfway).1 _ _ hdone
  refine ⟨computePins_halfway, by decide +kernel, _, _, Prod.ext hdone rfl, hclosed, ?_⟩
  have hmarket : halfway.contract? ((⟨"Market", "0x0000000000000001"⟩ : Site).key "testnet") =
      some ⟨⟨"Market", "0x0000000000000001"⟩, Digest.ofText bidText,
        [⟨"Bid", "0x0000000000000002"⟩]⟩ := (Cache.keep_spec _ _ _).1
  exact hclosed.closed _ (.child (.site (.head _)) (hclosed.keeps.contracts _ _ hmarket) (.head _))

end Engine

end Interaction
