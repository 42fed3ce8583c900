import Interaction.Pinning.Engine
import Interaction.Proofs.Pinning.Site
import Interaction.Proofs.Registry
import Interaction.Proofs.Source.Imports
import Interaction.Proofs.Text.Utf8
import Interaction.Proofs.Traversal

/-!
# The pin trees of an engine

Which trees are pin trees is a matter of the chain and the registry alone: the root is a contract
that the chain answers for, and below it stand pin trees of what it imports, in order. If the keys
of sites tell them apart, a site has at most one pin tree, and then no contract stands below
itself. A cache is sound if it holds nothing but contracts as the chain answers them and pin trees.
-/

namespace Interaction

namespace PinTree

/-- Where the contract at the root of a tree is deployed. -/
def site (tree : PinTree) : Site :=
  ⟨tree.name, tree.address⟩

theorem sizeOf_lt_of_mem {below tree : PinTree} (h : below ∈ tree.imports) :
    sizeOf below < sizeOf tree := by
  cases tree
  have hbelow := List.sizeOf_lt_of_mem h
  simp only [mk.sizeOf_spec] at hbelow ⊢
  omega

/-- What holds of a tree if it holds of its imports holds of all trees. -/
theorem induction {motive : PinTree → Prop}
    (h : ∀ tree, (∀ below ∈ tree.imports, motive below) → motive tree) (tree : PinTree) :
    motive tree :=
  h tree fun below _hbelow => induction h below
termination_by sizeOf tree
decreasing_by exact sizeOf_lt_of_mem _hbelow

end PinTree

/-- Every address that deployed code spells out in an import is hexadecimal. -/
def Chain.ImportsHex (chain : Chain) : Prop :=
  ∀ address name code text, chain.fetch address name = .ok code → Utf8.decode code = .ok text →
    ∀ i ∈ Source.importsOf (String.ofList text), ∀ spelled, i.address = some spelled →
      Address.isHex spelled = true

/-- It is enough to look at the code that is deployed. -/
theorem Chain.importsHex_of_codes {chain : Chain} (h : ∀ code ∈ chain.codes, ∃ text,
    code = Utf8.ofText text ∧ ∀ i ∈ Source.importsOf text, ∀ spelled, i.address = some spelled →
      Address.isHex spelled = true) : chain.ImportsHex := by
  intro address name code cs hcode hcs
  obtain ⟨text, rfl, himports⟩ := h code (Chain.mem_codes_of_fetch hcode)
  rw [Utf8.decode_ofText] at hcs
  cases hcs
  rwa [String.ofList_toList]

namespace Engine

variable {engine : Engine} {P : Site → Prop} {site : Site} {contract : Fetched}

/-- What a contract is that the chain answers for. -/
theorem inspect_eq_ok_iff : engine.inspect site = .ok contract ↔
    ∃ code text children, engine.chain.fetch site.address site.name = .ok code ∧
      Utf8.decode code = .ok text ∧ engine.childrenOf text = .ok children ∧
      contract = ⟨site, Digest.ofBytes code, children⟩ := by
  unfold inspect read
  cases hcode : engine.chain.fetch site.address site.name with
  | error failure => simp [bind, Except.bind]
  | ok code =>
      cases htext : Utf8.decode code with
      | error flaw => simp [bind, Except.bind, htext]
      | ok text =>
          cases hchildren : engine.childrenOf text with
          | error failure => simp [bind, Except.bind, Except.map, htext, hchildren]
          | ok children => simp [bind, Except.bind, Except.map, htext, hchildren, eq_comm]

theorem site_of_inspect (h : engine.inspect site = .ok contract) : contract.site = site := by
  obtain ⟨code, text, children, -, -, -, rfl⟩ := inspect_eq_ok_iff.1 h
  rfl

/-- What code imports are the places its imports are resolved to. -/
theorem childrenOf_eq_ok_iff {text : List Char} {children : List Site} :
    engine.childrenOf text = .ok children ↔
      List.Forall₂ (fun i child => ∃ found, engine.registry.resolve i engine.network = .ok found ∧
          child = ⟨found.contract, found.address⟩)
        (Import.distinct (Source.importsOf (String.ofList text))) children := by
  rw [childrenOf, mapM_eq_ok_iff]
  have h : ∀ (i : Import) (child : Site),
      ((engine.registry.resolve i engine.network).map fun found =>
          (⟨found.contract, found.address⟩ : Site)) = .ok child ↔
        ∃ found, engine.registry.resolve i engine.network = .ok found ∧
          child = ⟨found.contract, found.address⟩ := by
    intro i child
    cases engine.registry.resolve i engine.network with
    | error failure => simp [Except.map]
    | ok found => simp [Except.map, eq_comm]
  simp only [h]

/-- What is imported is where it has to be if the importing contract was answered for. -/
def Hereditary (engine : Engine) (P : Site → Prop) : Prop :=
  ∀ site contract, engine.inspect site = .ok contract → ∀ child ∈ contract.children, P child

/-- A contract imports another one directly. -/
def Imports (engine : Engine) (site child : Site) : Prop :=
  ∃ contract, engine.inspect site = .ok contract ∧ child ∈ contract.children

/-- No two of these sites have one key. -/
def Distinguishes (engine : Engine) (P : Site → Prop) : Prop :=
  ∀ s t, P s → P t → s.key engine.network = t.key engine.network → s = t

/-- The registry was built by its own operations, and all addresses are hexadecimal that it or
the deployed code names. -/
structure OnHex (engine : Engine) : Prop where
  built : engine.registry.Built
  registry : engine.registry.IsHexOn engine.network
  sources : engine.chain.ImportsHex

theorem OnHex.hereditary (h : engine.OnHex) : engine.Hereditary Site.IsCanonical := by
  intro site contract hcontract child hchild
  obtain ⟨code, text, children, hcode, htext, hchildren, rfl⟩ := inspect_eq_ok_iff.1 hcontract
  obtain ⟨i, hi, found, hfound, rfl⟩ :=
    exists_of_mem_right (childrenOf_eq_ok_iff.1 hchildren) hchild
  have hspelled := h.sources _ _ code text hcode htext i (Import.mem_of_mem_distinct hi)
  exact ⟨Registry.normalize_of_resolve h.built.isNormal hfound,
    Registry.isHex_of_resolve h.registry hspelled hfound⟩

theorem distinguishes_isCanonical (engine : Engine) : engine.Distinguishes Site.IsCanonical :=
  fun _ _ hs ht h => hs.eq_of_key ht h

/-- The pin trees of an engine, of sites with a given property. -/
inductive IsPinTree (engine : Engine) (P : Site → Prop) : PinTree → Prop
  | node {contract : Fetched} {imports : List PinTree}
      (holds : P contract.site)
      (answered : engine.inspect contract.site = .ok contract)
      (leads : List.Forall₂ (fun child tree => tree.site.key engine.network =
        child.key engine.network) contract.children imports)
      (below : ∀ tree ∈ imports, IsPinTree engine P tree) :
      IsPinTree engine P (Assembly.node contract imports)

theorem IsPinTree.holds {tree : PinTree} (h : engine.IsPinTree P tree) : P tree.site := by
  cases h with
  | node holds answered leads below => exact holds

/-- A site has at most one pin tree. -/
theorem IsPinTree.unique (hdistinct : engine.Distinguishes P) {s t : PinTree}
    (hs : engine.IsPinTree P s) (ht : engine.IsPinTree P t)
    (h : s.site.key engine.network = t.site.key engine.network) : s = t := by
  induction hs generalizing t with
  | @node contract imports holds answered leads below ih =>
      cases ht with
      | @node contract' imports' holds' answered' leads' below' =>
          have hsite : contract.site = contract'.site := hdistinct _ _ holds holds' h
          have hcontract : contract = contract' := by
            rw [hsite, answered'] at answered
            exact (Except.ok.inj answered).symm
          subst hcontract
          have himports : imports = imports' := by
            refine eq_of_forall₂ leads leads' ?_
            intro child tree htree other hother hkey hkey'
            exact ih tree htree (below' other hother) (hkey.trans hkey'.symm)
          rw [himports]

/-- Below a tree stand the smaller trees of what its contract imports. -/
theorem IsPinTree.exists_of_imports (hdistinct : engine.Distinguishes P)
    (hhereditary : engine.Hereditary P) {tree : PinTree} (h : engine.IsPinTree P tree)
    {child : Site} (himports : engine.Imports tree.site child) :
    ∃ below, engine.IsPinTree P below ∧ below.site = child ∧ sizeOf below < sizeOf tree := by
  obtain ⟨known, hknown, hchild⟩ := himports
  cases h with
  | @node contract imports holds answered leads below =>
      cases hknown.symm.trans answered
      obtain ⟨tree, htree, hkey⟩ := exists_of_mem_left leads hchild
      have hpin := below tree htree
      have hat := hdistinct _ _ hpin.holds (hhereditary _ _ answered child hchild) hkey
      exact ⟨tree, hpin, hat, PinTree.sizeOf_lt_of_mem htree⟩

end Engine

/-- A cache that holds contracts as the chain answers them and pin trees, under their keys. -/
structure Cache.IsSound (engine : Engine) (P : Site → Prop) (cache : Cache) : Prop where
  contracts : ∀ key contract, cache.contract? key = some contract →
    contract.site.key engine.network = key ∧ P contract.site ∧
      engine.inspect contract.site = .ok contract
  pins : ∀ key tree, cache.pin? key = some tree →
    tree.site.key engine.network = key ∧ engine.IsPinTree P tree

theorem Cache.isSound_empty (engine : Engine) (P : Site → Prop) : Cache.IsSound engine P {} :=
  ⟨nofun, nofun⟩

end Interaction
