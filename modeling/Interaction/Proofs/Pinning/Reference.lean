import Interaction.Proofs.Pinning.Tree

/-!
# Pinning by plain recursion

What a contract is pinned to can be said without caches, levels or concurrency: read its code, pin
what it imports in order, and fail where a contract comes back on the path that led to it. This
recursion finds a tree exactly if there is a pin tree of the site.
-/

namespace Interaction

namespace Engine

variable {engine : Engine} {path : List Site} {site : Site} {tree : PinTree}

/-- A path that gets longer by a deployed contract leaves fewer that can be put on it. -/
theorem length_filter_sites_lt (hpath : site ∉ path) (h : site ∈ engine.chain.sites) :
    (engine.chain.sites.filter fun other => other ∉ site :: path).length <
      (engine.chain.sites.filter fun other => other ∉ path).length := by
  have hsplit : (engine.chain.sites.filter fun other => other ∉ site :: path) =
      (engine.chain.sites.filter fun other => other ∉ path).filter fun other => other ≠ site := by
    rw [List.filter_filter]
    congr 1
    funext other
    simp [not_or]
  rw [hsplit]
  refine List.length_filter_lt_length_iff_exists.2 ⟨site, ?_, by simp⟩
  exact List.mem_filter.2 ⟨h, by simpa using hpath⟩

/-- Pins a contract by recursion over what it imports, along a path of contracts. -/
def pinTree (engine : Engine) (path : List Site) (site : Site) : Option PinTree :=
  let here := site.normalized
  if _hpath : here ∈ path then none
  else
    match _hcode : engine.chain.fetch here.address here.name with
    | .error _ => none
    | .ok code =>
      match Utf8.decode code with
      | .error _ => none
      | .ok text => do
        let imports ← (Import.distinct (Source.importsOf (String.ofList text))).mapM fun i => do
          let found ← (engine.registry.resolve i engine.network).toOption
          pinTree engine (here :: path) ⟨found.contract, found.address⟩
        let own := Digest.ofBytes code
        return { pin := Digest.ofTexts (own :: imports.map PinTree.pin)
                 own := own
                 name := here.name
                 address := here.address
                 imports := imports }
termination_by (engine.chain.sites.filter fun other => other ∉ path).length
decreasing_by
  exact length_filter_sites_lt _hpath
    (Site.normalized_normalized site ▸ Chain.mem_sites_of_fetch _hcode)

/-- A contract's imports are pinned where the contract's children are. -/
theorem pinImports_eq_some_iff {text : List Char} {imports : List PinTree} :
    (Import.distinct (Source.importsOf (String.ofList text))).mapM (fun i => do
        let found ← (engine.registry.resolve i engine.network).toOption
        engine.pinTree path ⟨found.contract, found.address⟩) = some imports ↔
      ∃ children, engine.childrenOf text = .ok children ∧
        List.Forall₂ (fun child below => engine.pinTree path child = some below)
          children imports := by
  have hstep : ∀ (i : Import) (below : PinTree),
      (do
        let found ← (engine.registry.resolve i engine.network).toOption
        engine.pinTree path ⟨found.contract, found.address⟩) = some below ↔
      ∃ child : Site, (∃ found, engine.registry.resolve i engine.network = .ok found ∧
          child = ⟨found.contract, found.address⟩) ∧
        engine.pinTree path child = some below := by
    intro i below
    cases engine.registry.resolve i engine.network with
    | error failure => simp [Except.toOption]
    | ok found => simp [Except.toOption]
  simp only [mapM_eq_some_iff, hstep, forall₂_exists_iff, childrenOf_eq_ok_iff]

/-- One step of the recursion. -/
theorem pinTree_eq_some_iff : engine.pinTree path site = some tree ↔
    site.normalized ∉ path ∧ ∃ contract imports,
      engine.inspect site.normalized = .ok contract ∧
      List.Forall₂ (fun child below => engine.pinTree (site.normalized :: path) child = some below)
        contract.children imports ∧
      tree = Assembly.node contract imports := by
  rw [pinTree]
  by_cases hpath : site.normalized ∈ path
  · simp [hpath]
  · rw [dif_neg hpath]
    simp only [inspect_eq_ok_iff, hpath, not_false_eq_true, true_and]
    split
    next failure hcode => simp [hcode]
    next code hcode =>
      split
      next flaw htext => simp [hcode, htext]
      next text htext =>
        simp only [Option.bind_eq_bind, Option.bind_eq_some_iff]
        constructor
        · rintro ⟨imports, himports, htree⟩
          obtain ⟨children, hchildren, hbelow⟩ := pinImports_eq_some_iff.1 himports
          exact ⟨_, imports, ⟨code, text, children, hcode, htext, hchildren, rfl⟩, hbelow,
            (Option.some.inj htree).symm⟩
        · rintro ⟨contract, imports, ⟨code', text', children, hcode', htext', hchildren, rfl⟩,
            hbelow, rfl⟩
          cases hcode.symm.trans hcode'
          cases htext.symm.trans htext'
          exact ⟨imports, pinImports_eq_some_iff.2 ⟨children, hchildren, hbelow⟩, rfl⟩

/-- What the recursion finds is a pin tree of the site. -/
theorem isPinTree_of_pinTree (h : engine.OnHex) (hsite : Address.isHex site.address = true)
    (htree : engine.pinTree path site = some tree) :
    engine.IsPinTree Site.IsCanonical tree ∧ tree.site = site.normalized := by
  induction tree using PinTree.induction generalizing path site with
  | h tree ih =>
      obtain ⟨-, contract, imports, hcontract, hbelow, rfl⟩ := pinTree_eq_some_iff.1 htree
      have hroot : contract.site = site.normalized := site_of_inspect hcontract
      have hchildren := h.hereditary _ contract hcontract
      have hstep : ∀ child ∈ contract.children, ∀ below ∈ imports,
          engine.pinTree (site.normalized :: path) child = some below →
            engine.IsPinTree Site.IsCanonical below ∧ below.site = child := by
        intro child hchild below hmem hfound
        have hcanonical := hchildren child hchild
        obtain ⟨hpin, hat⟩ := ih below hmem hcanonical.2 hfound
        exact ⟨hpin, hat.trans hcanonical.normalized_eq⟩
      have hpinned := forall₂_imp_of_mem hbelow hstep
      refine ⟨.node ?_ ?_ ?_ ?_, hroot⟩
      · rw [hroot]
        exact Site.isCanonical_normalized hsite
      · rw [hroot]
        exact hcontract
      · exact hpinned.imp fun child below hchild => by rw [hchild.2]
      · intro below hmem
        obtain ⟨child, -, hpin, -⟩ := exists_of_mem_right hpinned hmem
        exact hpin

/-- The recursion finds the pin tree of a site, provided that larger pin trees stand at the sites
of its path. -/
theorem pinTree_of_isPinTree (h : engine.OnHex) (htree : engine.IsPinTree Site.IsCanonical tree)
    (hsite : tree.site = site.normalized)
    (hpath : ∀ other ∈ path, ∃ above, engine.IsPinTree Site.IsCanonical above ∧
      above.site = other ∧ sizeOf tree < sizeOf above) :
    engine.pinTree path site = some tree := by
  induction htree generalizing path site with
  | @node contract imports holds answered leads below ih =>
      have hpin := IsPinTree.node holds answered leads below
      rw [pinTree_eq_some_iff, ← hsite]
      refine ⟨?_, contract, imports, answered, ?_, rfl⟩
      · intro hmem
        obtain ⟨above, habove, hat, hlt⟩ := hpath _ hmem
        have hsame := habove.unique (distinguishes_isCanonical engine) hpin (by rw [hat])
        rw [hsame] at hlt
        exact Nat.lt_irrefl _ hlt
      · refine forall₂_imp_of_mem leads ?_
        intro child hchild tree hmem hkey
        have hcanonical := h.hereditary _ contract answered child hchild
        have hat : tree.site = child := (below tree hmem).holds.eq_of_key hcanonical hkey
        have hsmaller : sizeOf tree < sizeOf (Assembly.node contract imports) :=
          PinTree.sizeOf_lt_of_mem hmem
        refine ih tree hmem (hat.trans hcanonical.normalized_eq.symm) ?_
        intro other hother
        rcases List.mem_cons.1 hother with rfl | hother
        · exact ⟨_, hpin, rfl, hsmaller⟩
        · obtain ⟨above, habove, hat, hlt⟩ := hpath other hother
          exact ⟨above, habove, hat, Nat.lt_trans hsmaller hlt⟩

/-- A site has a pin tree exactly if the recursion finds it. -/
theorem pinTree_nil_eq_some_iff (h : engine.OnHex) (hsite : Address.isHex site.address = true) :
    engine.pinTree [] site = some tree ↔
      engine.IsPinTree Site.IsCanonical tree ∧ tree.site = site.normalized :=
  ⟨isPinTree_of_pinTree h hsite, fun ⟨htree, hat⟩ => pinTree_of_isPinTree h htree hat nofun⟩

end Engine

end Interaction
