import Interaction.Proofs.Pinning.Engine
import Interaction.Proofs.Pinning.Fetches
import Mathlib

/-!
# Cycles of imports

Contracts on a cycle of imports have no pin trees, so roots that lead to a cycle cannot be pinned.
If nothing else is wrong with what they lead to, the failure is a cycle, and it tells the truth: its
keys are those of contracts of which each imports the next, from a root up to the first contract
that is met again.
-/

namespace Interaction

namespace Engine

variable {engine : Engine} {P : Site → Prop} {roots : List Site} {site : Site} {tree : PinTree}

/-- Contracts of which each imports the next, up to the first one that is met again. -/
structure Loops (engine : Engine) (sites : List Site) : Prop where
  follows : sites.IsChain engine.Imports
  distinct : (sites.map (Site.key engine.network)).dropLast.Nodup
  returns : ∃ key, (sites.map (Site.key engine.network)).getLast? = some key ∧
    (sites.map (Site.key engine.network)).dropLast.count key = 1

/-- Along imports trees get smaller. -/
theorem IsPinTree.exists_of_transGen (hdistinct : engine.Distinguishes P)
    (hhereditary : engine.Hereditary P) (h : engine.IsPinTree P tree)
    (hpath : Relation.TransGen engine.Imports tree.site site) :
    ∃ below, engine.IsPinTree P below ∧ below.site = site ∧ sizeOf below < sizeOf tree := by
  induction hpath with
  | single himports => exact h.exists_of_imports hdistinct hhereditary himports
  | tail _ himports ih =>
      obtain ⟨above, habove, rfl, hlt⟩ := ih
      obtain ⟨below, hbelow, hat, hsmaller⟩ :=
        habove.exists_of_imports hdistinct hhereditary himports
      exact ⟨below, hbelow, hat, Nat.lt_trans hsmaller hlt⟩

/-- A contract on a cycle has no pin tree. -/
theorem HasTree.not_transGen (hdistinct : engine.Distinguishes P)
    (hhereditary : engine.Hereditary P) (h : engine.HasTree P site) :
    ¬ Relation.TransGen engine.Imports site site := by
  intro hcycle
  obtain ⟨tree, htree, rfl⟩ := h
  obtain ⟨below, hbelow, hat, hlt⟩ := htree.exists_of_transGen hdistinct hhereditary hcycle
  rw [hbelow.unique hdistinct htree (by rw [hat])] at hlt
  exact Nat.lt_irrefl _ hlt

/-- What holds of the roots and is handed on by imports holds of all that the roots lead to. -/
theorem Reachable.of_answers {Q : Site → Prop} (hanswers : engine.Answers P Q)
    (hroots : ∀ root ∈ roots, Q root.normalized) (h : engine.Reachable roots site) : Q site := by
  induction h with
  | root hroot => exact hroots _ hroot
  | child _ hcontract hchild ih => exact hanswers.child _ _ ih hcontract _ hchild

/-- The chain answers for all that the roots lead to. -/
theorem answers_reachable (h : engine.OnHex)
    (hroots : ∀ root ∈ roots, Address.isHex root.address = true)
    (hanswered : ∀ site, engine.Reachable roots site → ∃ contract,
      engine.inspect site = .ok contract) :
    engine.Answers Site.IsCanonical (engine.Reachable roots) where
  holds := fun _ hsite => hsite.isCanonical h hroots
  answered := hanswered
  child := fun _ _ hsite hcontract _ hchild => .child hsite hcontract hchild

end Engine

namespace Assembly

open Engine

variable {engine : Engine} {P : Site → Prop} {context : Context} {cache : Cache}
  {network key : String} {path : List String} {depth : Nat} {contract : Fetched} {failure : Failure}
  {site : Site} {trail : List Site}

/-- If every step fails for a reason of one kind only, so does a run over all sites. -/
theorem forEach_error {f : Site → Cache → Except Failure PinTree × Cache} {sites : List Site}
    {I : Cache → Prop} {R : Failure → Prop} (hf : ∀ site ∈ sites, ∀ cache, I cache →
      I (f site cache).2 ∧ ∀ failure, (f site cache).1 = .error failure → R failure)
    (hcache : I cache) (h : (forEach f sites cache).1 = .error failure) : R failure := by
  fun_induction forEach f sites cache with
  | case1 => cases h
  | case2 site more cache reason after hsite =>
      obtain ⟨-, hreason⟩ := hf site (.head _) cache hcache
      rw [hsite] at hreason
      cases h
      exact hreason _ rfl
  | case3 site more cache tree after hsite reason last hmore ih =>
      obtain ⟨hafter, -⟩ := hf site (.head _) cache hcache
      rw [hsite] at hafter
      rw [hmore] at ih
      exact ih (fun other hother => hf other (.tail _ hother)) hafter h
  | case4 => cases h

/-- A contract without a pin that is not on the path fails as what it imports does. -/
theorem error_of_within_succ (hover : context.isOver = false) (hpin : cache.pin? key = none)
    (hfresh : key ∉ path) (hcontract : cache.contract? key = some contract)
    (h : (within network context (depth + 1) path key cache).1 = .error failure) :
    (forEach (fun child => within network context depth (path ++ [key]) (child.key network))
      contract.children cache).1 = .error failure := by
  have hpath : path.contains key = false := by
    simpa using hfresh
  rw [within, hover] at h
  simp only [hpin, hpath, hcontract, Bool.false_eq_true, if_false] at h
  split at h
  next reason after hfailed =>
    cases h
    rw [hfailed]
  next => cases h

/-- Contracts of cached keys of which each imports the next and the last imports `site`. -/
structure Trails (engine : Engine) (cache : Cache) (trail : List Site) (site : Site) : Prop where
  follows : (trail ++ [site]).IsChain engine.Imports
  nodup : (trail.map (Site.key engine.network)).Nodup
  cached : ∀ other ∈ trail, cache.contracts.contains (other.key engine.network) = true

namespace Trails

/-- A contract that is met again closes the loop. -/
theorem loops (h : Trails engine cache trail site)
    (hmet : site.key engine.network ∈ trail.map (Site.key engine.network)) :
    engine.Loops (trail ++ [site]) where
  follows := h.follows
  distinct := by
    rw [List.map_append, List.map_singleton, List.dropLast_concat]
    exact h.nodup
  returns := by
    refine ⟨site.key engine.network, ?_, ?_⟩
    · rw [List.map_append, List.map_singleton, List.getLast?_concat]
    · rw [List.map_append, List.map_singleton, List.dropLast_concat]
      exact List.count_eq_one_of_mem h.nodup hmet

/-- A trail goes on to what the contract at its end imports. -/
theorem append {cache' : Cache} (h : Trails engine cache trail site)
    (hcontracts : cache'.contracts = cache.contracts)
    (hcached : cache.contracts.contains (site.key engine.network) = true)
    (hfresh : site.key engine.network ∉ trail.map (Site.key engine.network)) {child : Site}
    (himports : engine.Imports site child) : Trails engine cache' (trail ++ [site]) child where
  follows := by
    rw [List.append_assoc]
    exact List.isChain_append_cons_cons.2 ⟨h.follows, himports, .singleton child⟩
  nodup := by
    rw [List.map_append, List.map_singleton, List.nodup_append]
    refine ⟨h.nodup, List.nodup_singleton _, ?_⟩
    rintro key hkey other hother rfl
    rw [List.mem_singleton.1 hother] at hkey
    exact hfresh hkey
  cached := by
    rw [hcontracts]
    intro other hother
    rcases List.mem_append.1 hother with hother | hother
    · exact h.cached other hother
    · rw [List.mem_singleton.1 hother]
      exact hcached

theorem length_le_size (h : Trails engine cache trail site) : trail.length ≤ cache.size := by
  have hcached : ∀ key ∈ trail.map (Site.key engine.network),
      cache.contracts.contains key = true := List.forall_mem_map.2 h.cached
  have hbound := Table.length_le_size h.nodup hcached
  rwa [List.length_map] at hbound

end Trails

/-- If the cache covers a contract, assembling it fails only where a contract is met again on the
way from the start of the path. -/
theorem within_error (hdistinct : engine.Distinguishes P) (hhereditary : engine.Hereditary P)
    (hover : context.isOver = false) {keys : List String} (hcache : cache.IsSound engine P)
    (hcovers : cache.Covers engine.network keys) (hsite : P site)
    (hkey : site.key engine.network ∈ keys) (htrail : Trails engine cache trail site)
    (hdepth : trail.length + depth = cache.size + 1)
    (h : (within engine.network context depth (trail.map (Site.key engine.network))
      (site.key engine.network) cache).1 = .error failure) :
    ∃ sites, failure = .cycle (sites.map (Site.key engine.network)) ∧
      trail ++ [site] <+: sites ∧ engine.Loops sites := by
  induction depth generalizing trail site cache failure with
  | zero =>
      -- the contracts of the trail are too many to be different contracts of the cache
      have hbound := htrail.length_le_size
      omega
  | succ depth ih =>
      cases hpin : cache.pin? (site.key engine.network) with
      | some tree =>
          rw [within, hover, hpin] at h
          cases h
      | none =>
          by_cases hmet : site.key engine.network ∈ trail.map (Site.key engine.network)
          · have hcontains : (trail.map (Site.key engine.network)).contains
                (site.key engine.network) = true := List.contains_iff_mem.2 hmet
            rw [within, hover] at h
            simp only [hpin, hcontains, Bool.false_eq_true, if_false, if_true] at h
            cases h
            exact ⟨trail ++ [site], by rw [List.map_append, List.map_singleton],
              List.prefix_refl _, htrail.loops hmet⟩
          · obtain ⟨contract, hcontract, hchildren⟩ := hcovers _ hkey
            obtain ⟨hsame, hholds, hanswered⟩ := hcache.contracts _ contract hcontract
            rw [hdistinct _ _ hholds hsite hsame] at hanswered
            have hstart : Extends engine P cache cache := .refl hcache
            have hfailed := error_of_within_succ hover hpin hmet hcontract h
            refine forEach_error (R := fun failure => ∃ sites,
              failure = .cycle (sites.map (Site.key engine.network)) ∧
                trail ++ [site] <+: sites ∧ engine.Loops sites) ?_ hstart hfailed
            -- what is imported goes on from the end of the trail
            intro child hchild after hafter
            refine ⟨hafter.trans (within_spec _ _ _ hafter.isSound).1, ?_⟩
            intro failure hfailure
            have hpath : trail.map (Site.key engine.network) ++ [site.key engine.network] =
                (trail ++ [site]).map (Site.key engine.network) := by
              rw [List.map_append, List.map_singleton]
            rw [hpath] at hfailure
            obtain ⟨sites, hcycle, hprefix, hloops⟩ := ih hafter.isSound (hafter.covers hcovers)
              (hhereditary _ contract hanswered child hchild) (hchildren child hchild)
              (htrail.append hafter.contracts (Table.contains_of_get? hcontract) hmet
                ⟨contract, hanswered, hchild⟩) (by
                  rw [List.length_append, List.length_singleton, Cache.size, hafter.contracts]
                  rw [Cache.size] at hdepth
                  omega) hfailure
            exact ⟨sites, hcycle, (List.prefix_append _ _).trans hprefix, hloops⟩

end Assembly

namespace Engine

variable {engine : Engine} {P : Site → Prop} {conditions : Conditions} {context : Context}
  {roots : List Site} {height : Nat} {cache : Cache} {session : Session} {failure : Failure}
  {site : Site}

/-- If the cache covers the roots that have no pin, they fail only where a contract is met again on
the way from one of them. -/
theorem assembleRoots_error (hdistinct : engine.Distinguishes P)
    (hhereditary : engine.Hereditary P) (hover : context.isOver = false)
    (hcache : cache.IsSound engine P) {keys : List String}
    (hcovers : cache.Covers engine.network keys)
    (hroots : ∀ root ∈ roots, (cache.pin? (root.key engine.network)).isSome = true ∨
      P root ∧ root.key engine.network ∈ keys)
    (h : (engine.assembleRoots context roots cache).1 = .error failure) :
    ∃ sites, failure = .cycle (sites.map (Site.key engine.network)) ∧
      (∃ root ∈ roots, sites.head? = some root) ∧ engine.Loops sites := by
  have hstart : Assembly.Extends engine P cache cache := .refl hcache
  refine Assembly.forEach_error (R := fun failure => ∃ sites,
    failure = .cycle (sites.map (Site.key engine.network)) ∧
      (∃ root ∈ roots, sites.head? = some root) ∧ engine.Loops sites) ?_ hstart h
  intro root hroot after hafter
  refine ⟨hafter.trans (Assembly.within_spec _ _ _ hafter.isSound).1, ?_⟩
  intro failure hfailure
  rw [Assembly.assemble] at hfailure
  rcases hroots root hroot with hpinned | ⟨hholds, hkey⟩
  · obtain ⟨tree, htree⟩ := Option.isSome_iff_exists.1 (hafter.pins _ hpinned)
    rw [Assembly.within, hover, htree] at hfailure
    cases hfailure
  · have htrail : Assembly.Trails engine after [] root :=
      ⟨.singleton root, .nil, List.forall_mem_nil _⟩
    obtain ⟨sites, hcycle, ⟨more, rfl⟩, hloops⟩ := Assembly.within_error hdistinct hhereditary
      hover hafter.isSound (hafter.covers hcovers) hholds hkey htrail (Nat.zero_add _) hfailure
    exact ⟨_, hcycle, ⟨root, hroot, rfl⟩, hloops⟩

/-- Under calm conditions roots that lead to nothing the chain does not answer for are pinned, or a
cycle is met. -/
theorem computePins_error (h : engine.OnHex)
    (hroots : ∀ root ∈ roots, Address.isHex root.address = true) (hcalm : conditions.IsCalm)
    (hover : session.context.isOver = false)
    (hanswered : ∀ site, engine.Reachable roots site → ∃ contract,
      engine.inspect site = .ok contract)
    (hfailure : (engine.computePins conditions roots height {} session).1 = .error failure) :
    ∃ sites, failure = .cycle (sites.map (Site.key engine.network)) ∧
      (∃ root ∈ roots, sites.head? = some root.normalized) ∧ engine.Loops sites := by
  have hdistinct := distinguishes_isCanonical engine
  have hanswers := answers_reachable h hroots hanswered
  obtain ⟨after, last, keys, hdiscover, hlast, hsound, hcovers, hready⟩ :=
    ready_of_discover hcalm hdistinct h.hereditary hanswers hover
      (Cache.isSound_empty engine Site.IsCanonical) fun root hroot => .root hroot
  have hholds : ∀ root ∈ roots.map Site.normalized,
      (after.pin? (root.key engine.network)).isSome = true ∨
        root.IsCanonical ∧ root.key engine.network ∈ keys := fun root hroot =>
    (hready root hroot).imp_right fun hcovered => ⟨hanswers.holds root hcovered.1, hcovered.2⟩
  rw [unpinned] at hdiscover
  simp only [computePins, hdiscover] at hfailure
  split at hfailure
  next reason final hassemble =>
    cases hfailure
    obtain ⟨sites, hcycle, ⟨root, hroot, hhead⟩, hloops⟩ := assembleRoots_error hdistinct
      h.hereditary hlast hsound hcovers hholds (congrArg Prod.fst hassemble)
    obtain ⟨origin, horigin, rfl⟩ := List.mem_map.1 hroot
    exact ⟨sites, hcycle, ⟨origin, horigin, hhead⟩, hloops⟩
  next => cases hfailure

/-- Roots whose pins can be computed lead to no cycle. -/
theorem not_transGen_of_computePins (h : engine.OnHex)
    (hroots : ∀ root ∈ roots, Address.isHex root.address = true) {records : List PinRecord}
    (hrecords : (engine.computePins conditions roots height {} session).1 = .ok records)
    (hsite : engine.Reachable roots site) :
    ¬ Relation.TransGen engine.Imports site site := by
  have hdistinct := distinguishes_isCanonical engine
  have hcanonical : ∀ root ∈ roots, root.normalized.IsCanonical := fun root hroot =>
    Site.isCanonical_normalized (hroots root hroot)
  obtain ⟨trees, -, htrees⟩ := (computePins_spec h.hereditary
    (Cache.isSound_empty engine Site.IsCanonical) hcanonical).2 records hrecords
  have hpinned : ∀ root ∈ roots, engine.HasTree Site.IsCanonical root.normalized := by
    intro root hroot
    obtain ⟨tree, -, htree, hkey⟩ := exists_of_mem_left htrees hroot
    have hsame : tree.site.key engine.network = root.normalized.key engine.network := by
      rw [hkey, Site.key_normalized]
    exact ⟨tree, htree, htree.holds.eq_of_key (hcanonical root hroot) hsame⟩
  have htree := hsite.of_answers (answers_hasTree hdistinct h.hereditary) hpinned
  exact htree.not_transGen hdistinct h.hereditary

/-- If the chain answers for all that the roots lead to and some of it lies on a cycle, pinning
fails with a cycle, and the keys that are named tell the truth: they start with that of a root,
each belongs to a contract that imports the contract of the next, and the last one is the only one
that has come before. -/
theorem computePins_eq_cycle (h : engine.OnHex)
    (hroots : ∀ root ∈ roots, Address.isHex root.address = true) (hcalm : conditions.IsCalm)
    (hover : session.context.isOver = false)
    (hanswered : ∀ site, engine.Reachable roots site → ∃ contract,
      engine.inspect site = .ok contract)
    (hcycle : ∃ site, engine.Reachable roots site ∧
      Relation.TransGen engine.Imports site site) :
    ∃ sites : List Site,
      (engine.computePins conditions roots height {} session).1 =
        .error (.cycle (sites.map (Site.key engine.network))) ∧
      (∃ root ∈ roots, sites.head? = some root.normalized) ∧ engine.Loops sites := by
  cases hresult : (engine.computePins conditions roots height {} session).1 with
  | ok records =>
      obtain ⟨site, hsite, hloop⟩ := hcycle
      exact absurd hloop (not_transGen_of_computePins h hroots hresult hsite)
  | error failure =>
      obtain ⟨sites, rfl, hhead, hloops⟩ :=
        computePins_error h hroots hcalm hover hanswered hresult
      exact ⟨sites, rfl, hhead, hloops⟩

/-- The code of contracts that import one contract each. -/
def bidText : String := "import Bid from 0x02\n"

def askText : String := "import Ask from 0x03\n"

theorem importsOf_bidText : Source.importsOf bidText = [⟨"Bid", some "0x02"⟩] := by cbv

theorem importsOf_askText : Source.importsOf askText = [⟨"Ask", some "0x03"⟩] := by cbv

/-- A market that imports bids, which import asks, which import bids. -/
def market : Engine where
  network := "testnet"
  chain := Chain.deploy (Chain.deploy
    (Chain.deploy { network := "testnet", height := 7 } "0x01" "Market" (Utf8.ofText bidText))
    "0x02" "Bid" (Utf8.ofText askText)) "0x03" "Ask" (Utf8.ofText bidText)
  registry := Registry.empty

/-- What a contract with a single import is. -/
theorem inspect_of_importsOf {text : String} {i : Import} {found : Resolved}
    (hcode : engine.chain.fetch site.address site.name = .ok (Utf8.ofText text))
    (himports : Source.importsOf text = [i])
    (hfound : engine.registry.resolve i engine.network = .ok found) :
    engine.inspect site = .ok ⟨site, Digest.ofText text, [⟨found.contract, found.address⟩]⟩ := by
  have hchildren : engine.childrenOf text.toList = .ok [⟨found.contract, found.address⟩] := by
    rw [childrenOf_eq_ok_iff, String.ofList_toList, himports]
    exact .cons ⟨found, hfound, rfl⟩ .nil
  exact inspect_eq_ok_iff.2 ⟨_, _, _, hcode, Utf8.decode_ofText text, hchildren, rfl⟩

theorem onHex_market : market.OnHex := by
  refine ⟨.empty, nofun, Chain.importsHex_of_codes ?_⟩
  have hcodes : ∀ code ∈ market.chain.codes,
      code = Utf8.ofText bidText ∨ code = Utf8.ofText askText := by decide
  intro code hcode
  rcases hcodes code hcode with rfl | rfl
  · refine ⟨_, rfl, ?_⟩
    rw [importsOf_bidText]
    decide
  · refine ⟨_, rfl, ?_⟩
    rw [importsOf_askText]
    decide

/-- What is found at the market: bids and asks import each other. -/
theorem inspect_market :
    market.inspect ⟨"Market", "0x0000000000000001"⟩ = .ok
      ⟨⟨"Market", "0x0000000000000001"⟩, Digest.ofText bidText,
        [⟨"Bid", "0x0000000000000002"⟩]⟩ ∧
    market.inspect ⟨"Bid", "0x0000000000000002"⟩ = .ok
      ⟨⟨"Bid", "0x0000000000000002"⟩, Digest.ofText askText, [⟨"Ask", "0x0000000000000003"⟩]⟩ ∧
    market.inspect ⟨"Ask", "0x0000000000000003"⟩ = .ok
      ⟨⟨"Ask", "0x0000000000000003"⟩, Digest.ofText bidText, [⟨"Bid", "0x0000000000000002"⟩]⟩ :=
  ⟨inspect_of_importsOf rfl importsOf_bidText rfl, inspect_of_importsOf rfl importsOf_askText rfl,
    inspect_of_importsOf rfl importsOf_bidText rfl⟩

theorem answers_market : market.Answers Site.IsCanonical fun site =>
    site ∈ [⟨"Market", "0x0000000000000001"⟩, ⟨"Bid", "0x0000000000000002"⟩,
      ⟨"Ask", "0x0000000000000003"⟩] := by
  obtain ⟨hmarket, hbid, hask⟩ := inspect_market
  refine ⟨by decide, ?_, ?_⟩
  · intro site hsite
    simp only [List.mem_cons, List.not_mem_nil, or_false] at hsite
    rcases hsite with rfl | rfl | rfl
    · exact ⟨_, hmarket⟩
    · exact ⟨_, hbid⟩
    · exact ⟨_, hask⟩
  · intro site contract hsite hcontract child hchild
    simp only [List.mem_cons, List.not_mem_nil, or_false] at hsite
    rcases hsite with rfl | rfl | rfl
    · cases hmarket.symm.trans hcontract
      rw [List.mem_singleton.1 hchild]
      exact .tail _ (.head _)
    · cases hbid.symm.trans hcontract
      rw [List.mem_singleton.1 hchild]
      exact .tail _ (.tail _ (.head _))
    · cases hask.symm.trans hcontract
      rw [List.mem_singleton.1 hchild]
      exact .tail _ (.head _)

/-- The market is not pinned, but its cycle is named. -/
theorem computePins_market : ∃ sites : List Site,
    (market.computePins {} [⟨"Market", "0x1"⟩] 7 {} {}).1 =
      .error (.cycle (sites.map (Site.key "testnet"))) ∧
    (∃ root ∈ [(⟨"Market", "0x1"⟩ : Site)], sites.head? = some root.normalized) ∧
    market.Loops sites := by
  obtain ⟨hmarket, hbid, hask⟩ := inspect_market
  have hreachable : market.Reachable [⟨"Market", "0x1"⟩]
      ⟨"Bid", "0x0000000000000002"⟩ := .child (.root (.head _)) hmarket (.head _)
  have hloop : Relation.TransGen market.Imports ⟨"Bid", "0x0000000000000002"⟩
      ⟨"Bid", "0x0000000000000002"⟩ := .tail (.single ⟨_, hbid, .head _⟩) ⟨_, hask, .head _⟩
  have hanswered : ∀ site, market.Reachable [⟨"Market", "0x1"⟩] site →
      ∃ contract, market.inspect site = .ok contract := fun site hsite =>
    answers_market.answered site (hsite.of_answers answers_market (by decide))
  exact computePins_eq_cycle onHex_market (by decide) ⟨fun _ => rfl, fun _ => rfl⟩ rfl hanswered
    ⟨_, hreachable, hloop⟩

end Engine

end Interaction
