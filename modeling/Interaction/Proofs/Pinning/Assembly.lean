import Interaction.Proofs.Pinning.Discovery

/-!
# Assembling from a sound cache

Assembling keeps the contracts of a cache, only adds pins, and whatever it returns from a sound
cache is the pin tree asked for. It returns one if the cache covers the contract and there is a pin
tree at all: the path above a contract then consists of contracts with larger trees, so it comes
back to none of them and is no longer than the cache.
-/

namespace Interaction

theorem Cache.IsSound.setPin {engine : Engine} {P : Site → Prop} {cache : Cache} {key : String}
    (h : cache.IsSound engine P) {tree : PinTree} (htree : engine.IsPinTree P tree)
    (hkey : tree.site.key engine.network = key) : (cache.setPin key tree).IsSound engine P := by
  refine ⟨h.contracts, ?_⟩
  intro other known hknown
  rw [pin?, Cache.setPin, Table.get?_insert] at hknown
  split at hknown
  next heq =>
    cases hknown
    exact ⟨hkey.trans heq, htree⟩
  next => exact h.pins other known hknown

namespace Assembly

open Engine

variable {engine : Engine} {P : Site → Prop} {context : Context} {cache : Cache}

/-! ### Any cache -/

/-- What every step keeps of its cache, a run over all sites keeps. -/
theorem forEach_invariant {f : Site → Cache → Except Failure PinTree × Cache} {I : Cache → Prop}
    {sites : List Site} (hf : ∀ site ∈ sites, ∀ cache, I cache → I (f site cache).2)
    (h : I cache) : I (forEach f sites cache).2 := by
  fun_induction forEach f sites cache with
  | case1 => exact h
  | case2 site more cache failure after hsite =>
      have hafter := hf site (.head _) cache h
      rwa [hsite] at hafter
  | case3 site more cache tree after hsite failure last hmore ih =>
      have hafter := hf site (.head _) cache h
      rw [hsite] at hafter
      have hlast := ih (fun other hother => hf other (.tail _ hother)) hafter
      rwa [hmore] at hlast
  | case4 site more cache tree after hsite trees last hmore ih =>
      have hafter := hf site (.head _) cache h
      rw [hsite] at hafter
      have hlast := ih (fun other hother => hf other (.tail _ hother)) hafter
      rwa [hmore] at hlast

/-- A cache with the same contracts and with pins wherever there were some. -/
structure Grows (cache cache' : Cache) : Prop where
  contracts : cache'.contracts = cache.contracts
  pins : ∀ key, (cache.pin? key).isSome = true → (cache'.pin? key).isSome = true

theorem Grows.refl (cache : Cache) : Grows cache cache :=
  ⟨rfl, fun _ hkey => hkey⟩

theorem Grows.setPin {cache' : Cache} (h : Grows cache cache') (key : String) (tree : PinTree) :
    Grows cache (cache'.setPin key tree) := by
  refine ⟨h.contracts, ?_⟩
  intro other hother
  have hold := h.pins other hother
  rw [Cache.pin?] at hold
  rw [Cache.pin?, Cache.setPin, Table.get?_insert]
  split
  · rfl
  · exact hold

theorem Grows.trans {first second third : Cache} (h : Grows first second)
    (hnext : Grows second third) : Grows first third :=
  ⟨hnext.contracts.trans h.contracts, fun key hkey => hnext.pins key (h.pins key hkey)⟩

theorem Grows.size_eq {cache' : Cache} (h : Grows cache cache') : cache'.size = cache.size := by
  rw [Cache.size, h.contracts, Cache.size]

/-- Assembling from any cache keeps its contracts and only adds pins. -/
theorem grows_within (network : String) (context : Context) (depth : Nat) (path : List String)
    (key : String) (cache : Cache) :
    Grows cache (within network context depth path key cache).2 := by
  induction depth generalizing path key cache with
  | zero => exact .refl cache
  | succ depth ih =>
      rw [within]
      split
      · exact .refl cache
      split
      next => exact .refl cache
      next =>
        split
        · exact .refl cache
        split
        next => exact .refl cache
        next contract hcontract =>
          have hafter := forEach_invariant (I := Grows cache)
            (fun child (_ : child ∈ contract.children) after hafter =>
              hafter.trans (ih (path ++ [key]) (child.key network) after)) (.refl cache)
          dsimp only
          split
          next failure after hchildren =>
            rw [hchildren] at hafter
            exact hafter
          next imports after hchildren =>
            rw [hchildren] at hafter
            exact hafter.setPin key _

/-! ### A sound cache -/

/-- What assembling makes of a cache. -/
structure Extends (engine : Engine) (P : Site → Prop) (cache cache' : Cache) : Prop where
  contracts : cache'.contracts = cache.contracts
  pins : ∀ key, (cache.pin? key).isSome = true → (cache'.pin? key).isSome = true
  isSound : cache'.IsSound engine P

theorem Extends.refl (h : cache.IsSound engine P) : Extends engine P cache cache :=
  ⟨rfl, fun _ hkey => hkey, h⟩

theorem Extends.trans {first second third : Cache} (h : Extends engine P first second)
    (hnext : Extends engine P second third) : Extends engine P first third :=
  ⟨hnext.contracts.trans h.contracts, fun key hkey => hnext.pins key (h.pins key hkey),
    hnext.isSound⟩

theorem Extends.covers {cache' : Cache} {keys : List String} (h : Extends engine P cache cache')
    (hcovers : cache.Covers engine.network keys) : cache'.Covers engine.network keys := by
  intro key hkey
  rw [Cache.contract?, h.contracts]
  exact hcovers key hkey

theorem Extends.grows {cache' : Cache} (h : Extends engine P cache cache') : Grows cache cache' :=
  ⟨h.contracts, h.pins⟩

theorem Extends.setPin {tree : PinTree} {key : String} {cache' : Cache}
    (h : Extends engine P cache cache') (htree : engine.IsPinTree P tree)
    (hkey : tree.site.key engine.network = key) :
    Extends engine P cache (cache'.setPin key tree) where
  contracts := h.contracts
  pins := (h.grows.setPin key tree).pins
  isSound := h.isSound.setPin htree hkey

/-- What every step does to its cache, and what it returns, carries over to a run over all sites. -/
theorem forEach_spec {f : Site → Cache → Except Failure PinTree × Cache}
    {R : Site → PinTree → Prop} {sites : List Site}
    (hf : ∀ site ∈ sites, ∀ cache, cache.IsSound engine P →
      Extends engine P cache (f site cache).2 ∧ ∀ tree, (f site cache).1 = .ok tree → R site tree)
    (hcache : cache.IsSound engine P) :
    Extends engine P cache (forEach f sites cache).2 ∧
      ∀ trees, (forEach f sites cache).1 = .ok trees → List.Forall₂ R sites trees := by
  fun_induction forEach f sites cache with
  | case1 cache =>
      refine ⟨.refl hcache, ?_⟩
      rintro trees ⟨⟩
      exact .nil
  | case2 site more cache failure after hsite =>
      obtain ⟨hextends, -⟩ := hf site (.head _) cache hcache
      rw [hsite] at hextends
      exact ⟨hextends, nofun⟩
  | case3 site more cache tree after hsite failure last hmore ih =>
      obtain ⟨hextends, -⟩ := hf site (.head _) cache hcache
      rw [hsite] at hextends
      obtain ⟨hrest, -⟩ := ih (fun other hother => hf other (.tail _ hother)) hextends.isSound
      rw [hmore] at hrest
      exact ⟨hextends.trans hrest, nofun⟩
  | case4 site more cache tree after hsite trees last hmore ih =>
      obtain ⟨hextends, htree⟩ := hf site (.head _) cache hcache
      rw [hsite] at hextends htree
      obtain ⟨hrest, htrees⟩ := ih (fun other hother => hf other (.tail _ hother)) hextends.isSound
      rw [hmore] at hrest htrees
      refine ⟨hextends.trans hrest, ?_⟩
      rintro all ⟨⟩
      exact .cons (htree tree rfl) (htrees trees rfl)

/-- Whatever assembling returns from a sound cache is a pin tree of the contract. -/
theorem within_spec (depth : Nat) (path : List String)
    (key : String) (hcache : cache.IsSound engine P) :
    Extends engine P cache (within engine.network context depth path key cache).2 ∧
      ∀ tree, (within engine.network context depth path key cache).1 = .ok tree →
        engine.IsPinTree P tree ∧ tree.site.key engine.network = key := by
  induction depth generalizing path key cache with
  | zero => exact ⟨.refl hcache, fun tree h => by cases h⟩
  | succ depth ih =>
      rw [within]
      split
      · exact ⟨.refl hcache, fun tree h => by cases h⟩
      · split
        next known hknown =>
          refine ⟨.refl hcache, ?_⟩
          rintro tree ⟨⟩
          exact (hcache.pins key known hknown).symm
        next hnone =>
          split
          · exact ⟨.refl hcache, fun tree h => by cases h⟩
          · split
            next => exact ⟨.refl hcache, fun tree h => by cases h⟩
            next contract hcontract =>
              obtain ⟨hkey, hholds, hanswered⟩ := hcache.contracts key contract hcontract
              obtain ⟨hextends, htrees⟩ := forEach_spec (fun child (_ : child ∈ contract.children)
                cache hcache => ih (path ++ [key]) (child.key engine.network) hcache) hcache
              dsimp only
              split
              next failure after hchildren =>
                rw [hchildren] at hextends
                exact ⟨hextends, fun tree h => by cases h⟩
              next imports after hchildren =>
                rw [hchildren] at hextends htrees
                have hbelow := htrees imports rfl
                have hpin : engine.IsPinTree P (node contract imports) :=
                  .node hholds hanswered (hbelow.imp fun child tree h => h.2) fun tree htree => by
                    obtain ⟨child, -, hchild, -⟩ := exists_of_mem_right hbelow htree
                    exact hchild
                refine ⟨hextends.setPin hpin hkey, ?_⟩
                rintro tree ⟨⟩
                exact ⟨hpin, hkey⟩

/-- If every step succeeds on the caches that the steps before it may leave, a run over all sites
does. -/
theorem forEach_complete {f : Site → Cache → Except Failure PinTree × Cache} {sites : List Site}
    {I : Cache → Prop} (hf : ∀ site ∈ sites, ∀ cache, I cache →
      I (f site cache).2 ∧ ∃ tree, (f site cache).1 = .ok tree) (hcache : I cache) :
    ∃ trees, (forEach f sites cache).1 = .ok trees := by
  fun_induction forEach f sites cache with
  | case1 => exact ⟨[], rfl⟩
  | case2 site more cache failure after hsite =>
      obtain ⟨-, tree, htree⟩ := hf site (.head _) cache hcache
      rw [hsite] at htree
      cases htree
  | case3 site more cache tree after hsite failure last hmore ih =>
      obtain ⟨hafter, -⟩ := hf site (.head _) cache hcache
      rw [hsite] at hafter
      obtain ⟨trees, htrees⟩ := ih (fun other hother => hf other (.tail _ hother)) hafter
      rw [hmore] at htrees
      cases htrees
  | case4 site more cache tree after hsite trees last hmore ih => exact ⟨tree :: trees, rfl⟩

/-- The keys of a path belong to cached contracts with larger trees. -/
structure LeadsTo (engine : Engine) (P : Site → Prop) (cache : Cache) (path : List String)
    (tree : PinTree) : Prop where
  nodup : path.Nodup
  cached : ∀ key ∈ path, cache.contracts.contains key = true
  larger : ∀ key ∈ path, ∃ above, engine.IsPinTree P above ∧
    above.site.key engine.network = key ∧ sizeOf tree < sizeOf above

namespace LeadsTo

variable {path : List String} {tree below : PinTree}

theorem extend {cache' : Cache} (h : LeadsTo engine P cache path tree)
    (hextends : Extends engine P cache cache') : LeadsTo engine P cache' path tree where
  nodup := h.nodup
  cached := by
    rw [hextends.contracts]
    exact h.cached
  larger := h.larger

/-- A path does not come back to a contract. -/
theorem key_not_mem (hdistinct : engine.Distinguishes P) (h : LeadsTo engine P cache path tree)
    (htree : engine.IsPinTree P tree) : tree.site.key engine.network ∉ path := by
  intro hmem
  obtain ⟨above, habove, hkey, hlt⟩ := h.larger _ hmem
  rw [habove.unique hdistinct htree hkey] at hlt
  exact Nat.lt_irrefl _ hlt

/-- A path goes on to what the contract at its end imports. -/
theorem append (hdistinct : engine.Distinguishes P) (h : LeadsTo engine P cache path tree)
    (htree : engine.IsPinTree P tree)
    (hcached : cache.contracts.contains (tree.site.key engine.network) = true)
    (hbelow : below ∈ tree.imports) :
    LeadsTo engine P cache (path ++ [tree.site.key engine.network]) below where
  nodup := by
    rw [List.nodup_append]
    refine ⟨h.nodup, by simp, ?_⟩
    intro key hkey other hother heq
    rw [heq, List.mem_singleton.1 hother] at hkey
    exact h.key_not_mem hdistinct htree hkey
  cached := by
    intro key hkey
    rcases List.mem_append.1 hkey with hkey | hkey
    · exact h.cached key hkey
    · rw [List.mem_singleton.1 hkey]
      exact hcached
  larger := by
    have hlt := PinTree.sizeOf_lt_of_mem hbelow
    intro key hkey
    rcases List.mem_append.1 hkey with hkey | hkey
    · obtain ⟨above, habove, hat, hlarger⟩ := h.larger key hkey
      exact ⟨above, habove, hat, Nat.lt_trans hlt hlarger⟩
    · exact ⟨tree, htree, (List.mem_singleton.1 hkey).symm, hlt⟩

end LeadsTo

/-- A contract is assembled once its imports are. -/
theorem within_succ {network : String} {path : List String} {key : String} {depth : Nat}
    {contract : Fetched} (hover : context.isOver = false) (hfresh : key ∉ path)
    (hcontract : cache.contract? key = some contract)
    (hchildren : ∃ trees, (forEach (fun child => within network context depth (path ++ [key])
      (child.key network)) contract.children cache).1 = .ok trees) :
    ∃ tree, (within network context (depth + 1) path key cache).1 = .ok tree := by
  obtain ⟨trees, htrees⟩ := hchildren
  have hpath : path.contains key = false := by
    simpa using hfresh
  rw [within, hover]
  cases hpin : cache.pin? key with
  | some tree => exact ⟨tree, rfl⟩
  | none =>
      simp only [hpath, hcontract, Bool.false_eq_true, if_false]
      split
      next failure after hfailed =>
        rw [hfailed] at htrees
        cases htrees
      next imports after hsome => exact ⟨_, rfl⟩

/-- A cache that covers a pin tree holds the contract at its root. -/
theorem contract?_of_covers (hdistinct : engine.Distinguishes P) (hcache : cache.IsSound engine P)
    {keys : List String} (hcovers : cache.Covers engine.network keys) {contract : Fetched}
    (holds : P contract.site) (answered : engine.inspect contract.site = .ok contract)
    (hkey : contract.site.key engine.network ∈ keys) :
    cache.contract? (contract.site.key engine.network) = some contract ∧
      ∀ child ∈ contract.children, child.key engine.network ∈ keys := by
  obtain ⟨known, hknown, hchildren⟩ := hcovers _ hkey
  obtain ⟨hsite, hholds, hanswered⟩ := hcache.contracts _ known hknown
  rw [hdistinct _ _ hholds holds hsite, answered] at hanswered
  cases hanswered
  exact ⟨hknown, hchildren⟩

/-- Assembling finds the pin tree of a contract that the cache covers. -/
theorem within_complete (hdistinct : engine.Distinguishes P) (hover : context.isOver = false)
    {keys path : List String} {depth : Nat} {tree : PinTree} (htree : engine.IsPinTree P tree)
    (hcache : cache.IsSound engine P) (hcovers : cache.Covers engine.network keys)
    (hkey : tree.site.key engine.network ∈ keys) (hpath : LeadsTo engine P cache path tree)
    (hdepth : path.length + depth = cache.size + 1) :
    ∃ found, (within engine.network context depth path (tree.site.key engine.network) cache).1 =
      .ok found := by
  induction htree generalizing depth path cache with
  | @node contract imports holds answered leads below ih =>
      have hpin := IsPinTree.node holds answered leads below
      obtain ⟨hknown, hchildren⟩ :=
        contract?_of_covers hdistinct hcache hcovers holds answered hkey
      have hcached := Table.contains_of_get? hknown
      cases depth with
      | zero =>
          -- the keys of the path are too many to be different keys of the cache
          have hbound := Table.length_le_size hpath.nodup hpath.cached
          rw [← Cache.size] at hbound
          omega
      | succ depth =>
          refine within_succ hover (hpath.key_not_mem hdistinct hpin) hknown ?_
          have hstart : Extends engine P cache cache := .refl hcache
          refine forEach_complete ?_ hstart
          intro child hchild after hafter
          refine ⟨hafter.trans (within_spec _ _ _ hafter.isSound).1, ?_⟩
          obtain ⟨tree, htree, hat⟩ := exists_of_mem_left leads hchild
          rw [← hat]
          refine ih tree htree hafter.isSound (hafter.covers hcovers) ?_ ?_ ?_
          · rw [hat]
            exact hchildren child hchild
          · exact (hpath.append hdistinct hpin hcached htree).extend hafter
          · rw [List.length_append, List.length_singleton, Cache.size, hafter.contracts]
            rw [Cache.size] at hdepth
            omega

end Assembly

end Interaction
