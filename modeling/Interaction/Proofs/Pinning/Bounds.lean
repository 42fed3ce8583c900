import Interaction.Proofs.Pinning.Assembly

/-!
# Walks and recursions end

A walk over an import graph goes on for as long as there is a level to walk, and assembling goes
down for as long as there is something imported. Here both are given a bound that they run into: at
the bound there is no answer, where the walk of so many levels and the recursion to such a depth
would come to one. From an empty cache one level more than there are deployed contracts is enough
for the walk, since every level but the last meets the key of one of them for the first time. As
many nested steps are enough for what is assembled then, since the keys on a path are different keys
of the cache, and it holds none but those of deployed contracts.
-/

namespace Interaction

theorem Cache.size_empty : ({} : Cache).size = 0 :=
  rfl

/-! ### Levels -/

namespace Engine

/-- Walks at most `levels` levels, and gives no answer if there is more to walk. -/
def discoverWithin? (engine : Engine) (conditions : Conditions) :
    (levels : Nat) → (seen : List String) → (sites : List Site) → Cache → Session →
      Option (Except Failure Unit × Cache × Session)
  | 0, _, sites, cache, session => if sites = [] then some (.ok (), cache, session) else none
  | levels + 1, seen, sites, cache, session =>
    if sites = [] then some (.ok (), cache, session)
    else if session.context.isOver then some (.error .cancelled, cache, session)
    else
      let level := engine.sortOut cache seen sites
      match engine.gather conditions session level.missing [] [] with
      | (.error failure, session) => some (.error failure, cache, session)
      | (.ok fetched, session) =>
        let kept := keepAll cache fetched
        discoverWithin? engine conditions levels level.seen (level.next ++ kept.1) kept.2 session

variable {engine : Engine} {conditions : Conditions} {levels more : Nat} {seen : List String}
  {sites : List Site} {start cache : Cache} {session : Session}

/-- A bound that affords a walk is not met. There is an answer, and all walks whose bounds afford
them come to it. -/
theorem discoverWithin?_eq (h : engine.Affords start levels seen sites cache)
    (hmore : engine.Affords start more seen sites cache) :
    engine.discoverWithin? conditions levels seen sites cache session =
      some (engine.discoverWithin conditions more seen sites cache session) := by
  induction levels generalizing more seen sites cache session with
  | zero =>
      cases h.eq_nil
      cases more <;> rfl
  | succ levels ih =>
      by_cases hsome : sites = []
      · subst hsome
        cases more <;> rfl
      cases more with
      | zero => exact absurd hmore.eq_nil hsome
      | succ more =>
          rw [discoverWithin?, discoverWithin, if_neg hsome, if_neg hsome]
          split
          · rfl
          dsimp only
          rcases hgather : engine.gather conditions session (engine.sortOut cache seen sites).missing
            [] [] with ⟨failure | fetched, after⟩
          · rfl
          · have hadvance := advance_of_reaches (reaches_of_gather (congrArg Prod.fst hgather))
            exact ih (h.step hsome hadvance) (hmore.step hsome hadvance)

end Engine

/-! ### Depths -/

namespace Assembly

/-- Does something for each site in order, as far as there are answers. -/
def forEach? (f : Site → Cache → Option (Except Failure PinTree × Cache)) :
    List Site → Cache → Option (Except Failure (List PinTree) × Cache)
  | [], cache => some (.ok [], cache)
  | site :: more, cache =>
    match f site cache with
    | none => none
    | some (.error failure, cache) => some (.error failure, cache)
    | some (.ok tree, cache) =>
      match forEach? f more cache with
      | none => none
      | some (.error failure, cache) => some (.error failure, cache)
      | some (.ok trees, cache) => some (.ok (tree :: trees), cache)

/-- The tree of the contract with the given key, put together in at most `depth` nested steps. There
is no answer if a step further down is needed. -/
def within? (network : String) (context : Context) :
    (depth : Nat) → (path : List String) → (key : String) → Cache →
      Option (Except Failure PinTree × Cache)
  | 0, _, _, _ => none
  | depth + 1, path, key, cache =>
    if context.isOver then some (.error .cancelled, cache)
    else
      match cache.pin? key with
      | some tree => some (.ok tree, cache)
      | none =>
        if path.contains key then some (.error (.cycle (path ++ [key])), cache)
        else
          match cache.contract? key with
          | none => some (.error (.fetch key "" network .neverFetched), cache)
          | some contract =>
            let step site := within? network context depth (path ++ [key]) (site.key network)
            match forEach? step contract.children cache with
            | none => none
            | some (.error failure, cache) => some (.error failure, cache)
            | some (.ok imports, cache) =>
              let tree := node contract imports
              some (.ok tree, cache.setPin key tree)

variable {network key : String} {context : Context} {path : List String} {cache : Cache}
  {depth more : Nat}

theorem forEach?_eq {f? : Site → Cache → Option (Except Failure PinTree × Cache)}
    {f : Site → Cache → Except Failure PinTree × Cache} {I : Cache → Prop} {sites : List Site}
    (hf : ∀ site ∈ sites, ∀ cache, I cache →
      f? site cache = some (f site cache) ∧ I (f site cache).2) (h : I cache) :
    forEach? f? sites cache = some (forEach f sites cache) := by
  induction sites generalizing cache with
  | nil => rfl
  | cons site more ih =>
      obtain ⟨hanswer, hafter⟩ := hf site (.head _) cache h
      have hmore := ih (fun other hother => hf other (.tail _ hother)) hafter
      rw [forEach?, forEach, hanswer]
      rcases hsite : f site cache with ⟨failure | tree, after⟩
      · rfl
      · rw [hsite] at hmore
        dsimp only
        rw [hmore]
        rcases forEach f more after with ⟨failure | trees, last⟩ <;> rfl

/-- The keys of a path are different keys of cached contracts. -/
structure IsPath (cache : Cache) (path : List String) : Prop where
  nodup : path.Nodup
  cached : ∀ key ∈ path, cache.contracts.contains key = true

namespace IsPath

theorem nil (cache : Cache) : IsPath cache [] :=
  ⟨.nil, List.forall_mem_nil _⟩

theorem length_le_size (h : IsPath cache path) : path.length ≤ cache.size :=
  Table.length_le_size h.nodup h.cached

theorem grow {cache' : Cache} (h : IsPath cache path) (hgrows : Grows cache cache') :
    IsPath cache' path :=
  ⟨h.nodup, by rw [hgrows.contracts]; exact h.cached⟩

/-- A path goes on over the key of a cached contract that it has not met. -/
theorem append (h : IsPath cache path) (hfresh : key ∉ path)
    (hcached : cache.contracts.contains key = true) : IsPath cache (path ++ [key]) where
  nodup := by
    rw [List.nodup_append]
    refine ⟨h.nodup, List.nodup_singleton _, ?_⟩
    rintro _ hkey other hother rfl
    exact hfresh (List.mem_singleton.1 hother ▸ hkey)
  cached := by
    intro other hother
    rcases List.mem_append.1 hother with hother | hother
    · exact h.cached other hother
    · rw [List.mem_singleton.1 hother]
      exact hcached

end IsPath

/-- A depth that reaches beyond a path over the whole cache is not met. There is an answer, and it
is the same at all such depths. -/
theorem within?_eq (hpath : IsPath cache path) (hdepth : cache.size < path.length + depth)
    (hmore : cache.size < path.length + more) :
    within? network context depth path key cache =
      some (within network context more path key cache) := by
  have hbound := hpath.length_le_size
  induction depth generalizing more path key cache with
  | zero => omega
  | succ depth ih =>
      cases more with
      | zero => omega
      | succ more =>
          rw [within?, within]
          split
          · rfl
          cases cache.pin? key with
          | some tree => rfl
          | none =>
              dsimp only
              split
              · rfl
              next hfresh =>
                cases hcontract : cache.contract? key with
                | none => rfl
                | some contract =>
                    have hlonger : IsPath cache (path ++ [key]) :=
                      hpath.append (by simpa using hfresh) (Table.contains_of_get? hcontract)
                    have hbelow : forEach? (fun site => within? network context depth
                          (path ++ [key]) (site.key network)) contract.children cache =
                        some (forEach (fun site => within network context more (path ++ [key])
                          (site.key network)) contract.children cache) := by
                      refine forEach?_eq (I := Grows cache) ?_ (.refl cache)
                      intro child _ after hafter
                      have hpath' := hlonger.grow hafter
                      refine ⟨?_, hafter.trans (grows_within _ _ _ _ _ after)⟩
                      refine ih hpath' ?_ ?_ hpath'.length_le_size
                      · rw [hafter.size_eq, List.length_append, List.length_singleton]
                        omega
                      · rw [hafter.size_eq, List.length_append, List.length_singleton]
                        omega
                    dsimp only
                    rw [hbelow]
                    rcases forEach (fun site => within network context more (path ++ [key])
                      (site.key network)) contract.children cache with
                      ⟨failure | imports, after⟩ <;> rfl

end Assembly

namespace Engine

variable {engine : Engine} {conditions : Conditions} {context : Context} {roots : List Site}
  {cache : Cache} {depth : Nat}

/-- Puts the trees of all roots together, each in at most `depth` nested steps. -/
def assembleRoots? (engine : Engine) (context : Context) (depth : Nat) (roots : List Site)
    (cache : Cache) : Option (Except Failure (List PinTree) × Cache) :=
  Assembly.forEach?
    (fun site => Assembly.within? engine.network context depth [] (site.key engine.network))
    roots cache

/-- No more nested steps are needed than there are cached contracts, and one. -/
theorem assembleRoots?_eq (h : cache.size < depth) :
    engine.assembleRoots? context depth roots cache =
      some (engine.assembleRoots context roots cache) := by
  refine Assembly.forEach?_eq (I := Assembly.Grows cache) ?_ (.refl cache)
  intro root _ after hafter
  refine ⟨?_, hafter.trans (Assembly.grows_within _ _ _ _ _ after)⟩
  refine Assembly.within?_eq (.nil after) ?_ ?_
  · rw [hafter.size_eq, List.length_nil, Nat.zero_add]
    exact h
  · rw [List.length_nil, Nat.zero_add]
    exact Nat.lt_succ_self _

/-- From an empty cache, no more contracts are cached than are deployed. -/
theorem size_discover (engine : Engine) (conditions : Conditions) (sites : List Site)
    (session : Session) :
    (engine.discover conditions sites {} session).2.1.size ≤ engine.chain.size := by
  have hsound : (engine.discover conditions sites {} session).2.1.IsSound engine fun _ => True :=
    isSound_of_reaches (fun _ _ _ _ _ => trivial) (Cache.isSound_empty engine _)
      (fun _ _ => trivial) reaches_discoverWithin
  have hsubset : (engine.discover conditions sites {} session).2.1.contracts.names ⊆
      engine.keysFrom {} := by
    intro key hkey
    obtain ⟨contract, hcontract⟩ :=
      Option.isSome_iff_exists.1 (Table.contains_iff_mem_names.2 hkey)
    obtain ⟨rfl, -, hanswered⟩ := hsound.contracts key contract hcontract
    exact mem_keysFrom_of_inspect hanswered
  have hlength := List.Nodup.length_le_of_subset (Table.nodup_names _) hsubset
  rwa [length_keysFrom, Cache.size_empty, Nat.zero_add, List.length_map] at hlength

/-- Discovery always ends. From an empty cache it is at its end after at most one more level than
there are deployed contracts, whether it succeeds or fails, and what is assembled from the cache
that it leaves needs at most as many nested steps. -/
theorem discover_isBounded (engine : Engine) (conditions : Conditions) (roots : List Site)
    (session : Session) :
    engine.discoverWithin? conditions (engine.chain.size + 1) [] roots {} session =
        some (engine.discover conditions roots {} session) ∧
      ∀ context sites, engine.assembleRoots? context (engine.chain.size + 1) sites
          (engine.discover conditions roots {} session).2.1 =
        some (engine.assembleRoots context sites
          (engine.discover conditions roots {} session).2.1) := by
  constructor
  · refine discoverWithin?_eq (.of_lt ?_) (.of_lt (by omega))
    rw [Cache.size_empty, Nat.zero_add]
    exact Nat.lt_succ_self _
  · intro context sites
    exact assembleRoots?_eq (Nat.lt_succ_of_le (size_discover engine conditions roots session))

end Engine

end Interaction
