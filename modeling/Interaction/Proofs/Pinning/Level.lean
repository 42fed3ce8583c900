import Interaction.Pinning.Discovery
import Interaction.Proofs.Pinning.Concurrent
import Interaction.Proofs.Pinning.Tree

/-!
# One level of discovery

A level is sorted out, what is missing is fetched, and what was fetched is kept. All of this comes
to one step of the walk: the keys of the level are met, its contracts are in the cache, and what
those that are met for the first time import is the next level.
-/

namespace Interaction

/-- What keeping a contract does: the kept one is there, what was there stays, and nothing but the
given contract is new. -/
theorem Cache.keep_spec (cache : Cache) (key : String) (contract : Fetched) :
    (cache.keep key contract).2.contract? key = some (cache.keep key contract).1 ∧
      (∀ other known, cache.contract? other = some known →
        (cache.keep key contract).2.contract? other = some known) ∧
      (∀ other known, (cache.keep key contract).2.contract? other = some known →
        cache.contract? other = some known ∨ (other, known) = (key, contract)) ∧
      (cache.keep key contract).2.pins = cache.pins := by
  unfold keep
  split
  next kept hkept => exact ⟨hkept, fun _ _ h => h, fun _ _ h => .inl h, rfl⟩
  next hnone =>
    rw [contract?] at hnone
    simp only [contract?, Table.get?_insert]
    refine ⟨if_pos trivial, ?_, ?_, trivial⟩
    · intro other known hknown
      have hne : key ≠ other := by
        rintro rfl
        rw [hnone] at hknown
        cases hknown
      rw [if_neg hne]
      exact hknown
    · intro other known hknown
      split at hknown
      next heq =>
        cases hknown
        rw [heq]
        exact .inr rfl
      next => exact .inl hknown

namespace Engine

variable {engine : Engine} {network : String} {cache : Cache} {seen : List String}
  {sites : List Site}

/-- A level in which these sites have been sorted out. -/
structure SortedOut (network : String) (cache : Cache) (seen : List String) (sites : List Site)
    (level : Frontier) : Prop where
  nodup : seen.Nodup → level.seen.Nodup
  mem_seen : ∀ key, key ∈ level.seen ↔ key ∈ seen ∨ ∃ site ∈ sites, site.key network = key
  placed : ∀ site ∈ sites, site.key network ∉ seen →
    (∃ contract, cache.contract? (site.key network) = some contract ∧
      ∀ child ∈ contract.children, child ∈ level.next) ∨
    ∃ other, (site.key network, other) ∈ level.missing
  next_mem : ∀ child ∈ level.next, ∃ site ∈ sites, site.key network ∉ seen ∧
    ∃ contract, cache.contract? (site.key network) = some contract ∧ child ∈ contract.children
  missing_mem : ∀ entry ∈ level.missing, entry.2 ∈ sites ∧ entry.2.key network = entry.1 ∧
    entry.1 ∉ seen ∧ cache.contract? entry.1 = none

namespace SortedOut

variable {level : Frontier} {site : Site}

/-- A contract that has been met before is passed over. -/
theorem pass (h : SortedOut network cache seen sites level) (hmet : site.key network ∈ level.seen) :
    SortedOut network cache seen (sites ++ [site]) level where
  nodup := h.nodup
  mem_seen := by
    intro key
    rw [h.mem_seen key]
    constructor
    · rintro (hkey | ⟨other, hother, hkey⟩)
      · exact .inl hkey
      · exact .inr ⟨other, List.mem_append_left _ hother, hkey⟩
    · rintro (hkey | ⟨other, hother, hkey⟩)
      · exact .inl hkey
      · rcases List.mem_append.1 hother with hother | hother
        · exact .inr ⟨other, hother, hkey⟩
        · rw [List.mem_singleton.1 hother] at hkey
          exact (h.mem_seen key).1 (hkey ▸ hmet)
  placed := by
    intro other hother hnew
    rcases List.mem_append.1 hother with hother | hother
    · exact h.placed other hother hnew
    · rw [List.mem_singleton.1 hother] at hnew ⊢
      obtain ⟨twin, htwin, hkey⟩ := ((h.mem_seen _).1 hmet).resolve_left hnew
      rw [← hkey] at hnew ⊢
      exact h.placed twin htwin hnew
  next_mem := by
    intro child hchild
    obtain ⟨other, hother, hrest⟩ := h.next_mem child hchild
    exact ⟨other, List.mem_append_left _ hother, hrest⟩
  missing_mem := by
    intro entry hentry
    obtain ⟨hsite, hrest⟩ := h.missing_mem entry hentry
    exact ⟨List.mem_append_left _ hsite, hrest⟩

theorem not_mem_seen (h : SortedOut network cache seen sites level)
    (hnew : site.key network ∉ level.seen) : site.key network ∉ seen :=
  fun hkey => hnew ((h.mem_seen _).2 (.inl hkey))

theorem mem_seen_cons (h : SortedOut network cache seen sites level) (key : String) :
    key ∈ site.key network :: level.seen ↔
      key ∈ seen ∨ ∃ other ∈ sites ++ [site], other.key network = key := by
  simp only [List.mem_cons, h.mem_seen key, List.mem_append, List.not_mem_nil, or_false]
  constructor
  · rintro (rfl | hkey | ⟨other, hother, hkey⟩)
    · exact .inr ⟨site, .inr rfl, rfl⟩
    · exact .inl hkey
    · exact .inr ⟨other, .inl hother, hkey⟩
  · rintro (hkey | ⟨other, hother | rfl, hkey⟩)
    · exact .inr (.inl hkey)
    · exact .inr (.inr ⟨other, hother, hkey⟩)
    · exact .inl hkey.symm

/-- A cached contract is met for the first time. -/
theorem meet_cached (h : SortedOut network cache seen sites level)
    (hnew : site.key network ∉ level.seen) {contract : Fetched}
    (hcontract : cache.contract? (site.key network) = some contract) :
    SortedOut network cache seen (sites ++ [site])
      ⟨site.key network :: level.seen, level.next ++ contract.children, level.missing⟩ where
  nodup := fun hnodup => List.nodup_cons.2 ⟨hnew, h.nodup hnodup⟩
  mem_seen := h.mem_seen_cons
  placed := by
    intro other hother hfresh
    rcases List.mem_append.1 hother with hother | hother
    · refine (h.placed other hother hfresh).imp_left ?_
      rintro ⟨known, hknown, hchildren⟩
      exact ⟨known, hknown, fun child hchild => List.mem_append_left _ (hchildren child hchild)⟩
    · rw [List.mem_singleton.1 hother]
      exact .inl ⟨contract, hcontract, fun child hchild => List.mem_append_right _ hchild⟩
  next_mem := by
    intro child hchild
    rcases List.mem_append.1 hchild with hchild | hchild
    · obtain ⟨other, hother, hrest⟩ := h.next_mem child hchild
      exact ⟨other, List.mem_append_left _ hother, hrest⟩
    · have hlast : site ∈ sites ++ [site] := List.mem_append_right _ (.head _)
      exact ⟨site, hlast, h.not_mem_seen hnew, contract, hcontract, hchild⟩
  missing_mem := by
    intro entry hentry
    obtain ⟨hsite, hrest⟩ := h.missing_mem entry hentry
    exact ⟨List.mem_append_left _ hsite, hrest⟩

/-- A contract that is still missing is met for the first time. -/
theorem meet_missing (h : SortedOut network cache seen sites level)
    (hnew : site.key network ∉ level.seen) (hnone : cache.contract? (site.key network) = none) :
    SortedOut network cache seen (sites ++ [site])
      ⟨site.key network :: level.seen, level.next,
        level.missing ++ [(site.key network, site)]⟩ where
  nodup := fun hnodup => List.nodup_cons.2 ⟨hnew, h.nodup hnodup⟩
  mem_seen := h.mem_seen_cons
  placed := by
    intro other hother hfresh
    rcases List.mem_append.1 hother with hother | hother
    · refine (h.placed other hother hfresh).imp_right ?_
      rintro ⟨twin, htwin⟩
      exact ⟨twin, List.mem_append_left _ htwin⟩
    · rw [List.mem_singleton.1 hother]
      exact .inr ⟨site, List.mem_append_right _ (.head _)⟩
  next_mem := by
    intro child hchild
    obtain ⟨other, hother, hrest⟩ := h.next_mem child hchild
    exact ⟨other, List.mem_append_left _ hother, hrest⟩
  missing_mem := by
    intro entry hentry
    rcases List.mem_append.1 hentry with hentry | hentry
    · obtain ⟨hsite, hrest⟩ := h.missing_mem entry hentry
      exact ⟨List.mem_append_left _ hsite, hrest⟩
    · rw [List.mem_singleton.1 hentry]
      exact ⟨List.mem_append_right _ (.head _), rfl, h.not_mem_seen hnew, hnone⟩

theorem add (h : SortedOut network cache seen sites level) (site : Site) :
    SortedOut network cache seen (sites ++ [site]) (level.add network cache site) := by
  unfold Frontier.add
  simp only [List.contains_iff_mem]
  split
  next hmet => exact h.pass hmet
  next hnew =>
    split
    next known hknown => exact h.meet_cached hnew hknown
    next hnone => exact h.meet_missing hnew hnone

end SortedOut

theorem sortedOut_sortOut (engine : Engine) (cache : Cache) (seen : List String)
    (sites : List Site) :
    SortedOut engine.network cache seen sites (engine.sortOut cache seen sites) := by
  refine foldl_invariant ?_ (fun done level site h => h.add site) sites
  constructor <;> simp

/-- A cache into which these fetched contracts have been put, and what the kept ones import. -/
structure KeptAll (cache : Cache) (fetched : List (String × Fetched)) (kept : List Site × Cache) :
    Prop where
  pins : kept.2.pins = cache.pins
  grows : ∀ key contract, cache.contract? key = some contract →
    kept.2.contract? key = some contract
  origin : ∀ key contract, kept.2.contract? key = some contract →
    cache.contract? key = some contract ∨ (key, contract) ∈ fetched
  placed : ∀ entry ∈ fetched, ∃ contract, kept.2.contract? entry.1 = some contract ∧
    ∀ child ∈ contract.children, child ∈ kept.1
  next_mem : ∀ child ∈ kept.1, ∃ entry ∈ fetched, ∃ contract,
    kept.2.contract? entry.1 = some contract ∧ child ∈ contract.children

theorem KeptAll.add {fetched : List (String × Fetched)} {kept : List Site × Cache}
    (h : KeptAll cache fetched kept) (entry : String × Fetched) :
    KeptAll cache (fetched ++ [entry])
      (kept.1 ++ (kept.2.keep entry.1 entry.2).1.children, (kept.2.keep entry.1 entry.2).2) := by
  obtain ⟨hhere, hgrows, horigin, hpins⟩ := Cache.keep_spec kept.2 entry.1 entry.2
  constructor
  · exact hpins.trans h.pins
  · exact fun key contract hkey => hgrows key contract (h.grows key contract hkey)
  · intro key contract hkey
    rcases horigin key contract hkey with hold | hnew
    · exact (h.origin key contract hold).imp_right fun hmem => List.mem_append_left _ hmem
    · exact .inr (List.mem_append_right _ (List.mem_singleton.2 hnew))
  · intro other hother
    rcases List.mem_append.1 hother with hother | hother
    · obtain ⟨contract, hcontract, hchildren⟩ := h.placed other hother
      refine ⟨contract, hgrows _ _ hcontract, ?_⟩
      exact fun child hchild => List.mem_append_left _ (hchildren child hchild)
    · rw [List.mem_singleton.1 hother]
      exact ⟨_, hhere, fun child hchild => List.mem_append_right _ hchild⟩
  · intro child hchild
    rcases List.mem_append.1 hchild with hchild | hchild
    · obtain ⟨other, hother, contract, hcontract, hmem⟩ := h.next_mem child hchild
      exact ⟨other, List.mem_append_left _ hother, contract, hgrows _ _ hcontract, hmem⟩
    · exact ⟨entry, List.mem_append_right _ (.head _), _, hhere, hchild⟩

theorem keptAll_keepAll (cache : Cache) (fetched : List (String × Fetched)) :
    KeptAll cache fetched (keepAll cache fetched) := by
  refine foldl_invariant ?_ (fun done kept entry h => h.add entry) fetched
  constructor <;> simp

/-- One step of the walk: it has met the sites of a level and goes on to the next. -/
structure Advance (engine : Engine) (seen : List String) (sites : List Site) (cache : Cache)
    (seen' : List String) (sites' : List Site) (cache' : Cache) : Prop where
  nodup : seen.Nodup → seen'.Nodup
  mem_seen : ∀ key, key ∈ seen' ↔
    key ∈ seen ∨ ∃ site ∈ sites, site.key engine.network = key
  pins : cache'.pins = cache.pins
  grows : ∀ key contract, cache.contract? key = some contract →
    cache'.contract? key = some contract
  origin : ∀ key contract, cache'.contract? key = some contract →
    cache.contract? key = some contract ∨
      ∃ site ∈ sites, site.key engine.network = key ∧ engine.inspect site = .ok contract
  placed : ∀ site ∈ sites, site.key engine.network ∉ seen →
    ∃ contract, cache'.contract? (site.key engine.network) = some contract ∧
      ∀ child ∈ contract.children, child ∈ sites'
  next_mem : ∀ child ∈ sites', ∃ site ∈ sites, site.key engine.network ∉ seen ∧
    ∃ contract, cache'.contract? (site.key engine.network) = some contract ∧
      child ∈ contract.children

section Fetched

variable {conditions : Conditions} {fetched : List (String × Fetched)}
  (h : (engine.gatherCourse conditions (engine.sortOut cache seen sites).missing [] []).Reaches
    (.ok fetched))

include h

/-- What is fetched is what the chain answers about the sites of the level. -/
theorem exists_of_mem_fetched : ∀ entry ∈ fetched, ∃ site ∈ sites,
    site.key engine.network = entry.1 ∧ engine.inspect site = .ok entry.2 := by
  refine forall_of_reaches_gatherCourse _ _ _ h ?_ (by simp) (by simp)
  intro entry hentry contract hcontract
  obtain ⟨hsite, hkey, -⟩ :=
    (sortedOut_sortOut engine cache seen sites).missing_mem entry hentry
  exact ⟨entry.2, hsite, hkey, hcontract⟩

/-- Everything that was missing is fetched, and nothing else. -/
theorem mem_fetched_iff (key : String) : key ∈ fetched.map Prod.fst ↔
    key ∈ (engine.sortOut cache seen sites).missing.map Prod.fst := by
  have hmem := (perm_of_reaches_gatherCourse _ _ _ h).mem_iff (a := key)
  rwa [List.map_nil, List.map_nil, List.nil_append, List.nil_append] at hmem

/-- A level that is fetched is a step of the walk. -/
theorem advance_of_reaches : engine.Advance seen sites cache (engine.sortOut cache seen sites).seen
    ((engine.sortOut cache seen sites).next ++ (keepAll cache fetched).1)
    (keepAll cache fetched).2 := by
  have hlevel := sortedOut_sortOut engine cache seen sites
  have hkept := keptAll_keepAll cache fetched
  constructor
  · exact hlevel.nodup
  · exact hlevel.mem_seen
  · exact hkept.pins
  · exact hkept.grows
  · intro key contract hcontract
    exact (hkept.origin key contract hcontract).imp_right fun hmem => exists_of_mem_fetched h _ hmem
  · intro site hsite hnew
    rcases hlevel.placed site hsite hnew with ⟨contract, hcontract, hchildren⟩ | ⟨other, hother⟩
    · refine ⟨contract, hkept.grows _ _ hcontract, ?_⟩
      exact fun child hchild => List.mem_append_left _ (hchildren child hchild)
    · have hmem := (mem_fetched_iff h _).2 (List.mem_map_of_mem hother)
      obtain ⟨entry, hentry, hkey⟩ := List.mem_map.1 hmem
      obtain ⟨contract, hcontract, hchildren⟩ := hkept.placed entry hentry
      rw [hkey] at hcontract
      refine ⟨contract, hcontract, ?_⟩
      exact fun child hchild => List.mem_append_right _ (hchildren child hchild)
  · intro child hchild
    rcases List.mem_append.1 hchild with hchild | hchild
    · obtain ⟨site, hsite, hnew, contract, hcontract, hmem⟩ := hlevel.next_mem child hchild
      exact ⟨site, hsite, hnew, contract, hkept.grows _ _ hcontract, hmem⟩
    · obtain ⟨entry, hentry, contract, hcontract, hmem⟩ := hkept.next_mem child hchild
      obtain ⟨missing, hmissing, hkey⟩ :=
        List.mem_map.1 ((mem_fetched_iff h entry.1).1 (List.mem_map_of_mem hentry))
      obtain ⟨hsite, hsame, hnew, -⟩ := hlevel.missing_mem missing hmissing
      rw [← hkey] at hcontract
      refine ⟨missing.2, hsite, ?_, contract, ?_, hmem⟩
      · rw [hsame]
        exact hnew
      · rw [hsame]
        exact hcontract

end Fetched

end Engine

end Interaction
