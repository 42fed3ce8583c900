import Interaction.Proofs.Digest
import Interaction.Proofs.Pinning.Engine

/-!
# What a pin commits to

Two trees with one pin are the same tree, down to the code of every contract in it, unless two of
the strings that were hashed for them collide. Nothing is assumed of the digest: a difference
somewhere in the trees exhibits the collision.
-/

namespace Interaction

namespace PinTree

/-- The tree at a position, which says at each level which import to go down to. -/
def below? (tree : PinTree) : (position : List Nat) → Option PinTree
  | [] => some tree
  | i :: rest => tree.imports[i]?.bind fun below => below.below? rest

end PinTree

namespace Engine

variable {engine first second : Engine} {s t tree : PinTree} {P Q : Site → Prop}

/-- The caches that runs may leave, whatever happens while they run. -/
inductive Reaches (engine : Engine) : Cache → Prop
  | start : Reaches engine {}
  | run {cache : Cache} (h : Reaches engine cache) (conditions : Conditions) (roots : List Site)
      (height : Nat) (session : Session) :
      Reaches engine (engine.computePins conditions roots height cache session).2.1

/-- Whether a run that succeeds may return a tree. -/
def Returns (engine : Engine) (tree : PinTree) : Prop :=
  ∃ cache conditions roots height session records, engine.Reaches cache ∧
    (engine.computePins conditions roots height cache session).1 = .ok records ∧
      ∃ record ∈ records, record.tree = some tree

theorem Reaches.isSound {cache : Cache} (h : engine.Reaches cache) :
    cache.IsSound engine fun _ => True := by
  induction h with
  | start => exact Cache.isSound_empty engine _
  | run _ conditions roots height session ih =>
      exact (computePins_spec (fun _ _ _ _ _ => trivial) ih fun _ _ => trivial).1

theorem Returns.isPinTree (h : engine.Returns tree) : engine.IsPinTree (fun _ => True) tree := by
  obtain ⟨cache, conditions, roots, height, session, records, hcache, hrecords, record, hmem,
    htree⟩ := h
  obtain ⟨trees, rfl, htrees⟩ := (computePins_spec (fun _ _ _ _ _ => trivial) hcache.isSound
    fun _ _ => trivial).2 records hrecords
  obtain ⟨pinned, hpinned, rfl⟩ := List.mem_map.1 hmem
  cases htree
  obtain ⟨root, -, hpin, -⟩ := exists_of_mem_right htrees hpinned
  exact hpin

/-- Where all addresses are hexadecimal, every pin tree is returned by some run. -/
theorem returns_of_isPinTree (h : engine.OnHex) (htree : engine.IsPinTree Site.IsCanonical tree) :
    engine.Returns tree := by
  have hroot : tree.site.normalized = tree.site := htree.holds.normalized_eq
  have hcanonical : ∀ root ∈ [tree.site], root.normalized.IsCanonical := by
    intro root hmem
    rw [List.mem_singleton.1 hmem, hroot]
    exact htree.holds
  have hall : ∀ root ∈ [tree.site], engine.HasTree Site.IsCanonical root.normalized := by
    intro root hmem
    rw [List.mem_singleton.1 hmem, hroot]
    exact ⟨tree, htree, rfl⟩
  have hempty := Cache.isSound_empty engine Site.IsCanonical
  have hcalm : Conditions.IsCalm {} := ⟨fun _ => rfl, fun _ => rfl⟩
  obtain ⟨records, hrecords⟩ : ∃ records,
      (engine.computePins {} [tree.site] 0 {} {}).1 = .ok records :=
    computePins_complete hcalm (distinguishes_isCanonical engine) h.hereditary rfl hempty hall
  obtain ⟨trees, rfl, htrees⟩ :=
    (computePins_spec h.hereditary hempty hcanonical).2 records hrecords
  obtain ⟨found, hfound, hpin, hkey⟩ := exists_of_mem_left htrees (.head _)
  have hsame : found = tree := hpin.unique (distinguishes_isCanonical engine) htree hkey
  refine ⟨{}, {}, [tree.site], 0, {}, _, .start, hrecords, .ofTree 0 tree, ?_, rfl⟩
  exact List.mem_map.2 ⟨found, hfound, by rw [hsame]⟩

/-- The strings that are hashed for a tree: the code of every contract in it, and each contract's
own digest followed by the pins of its imports. -/
inductive Hashes (engine : Engine) : PinTree → List UInt8 → Prop
  | code {tree : PinTree} {code : List UInt8}
      (h : engine.chain.fetch tree.address tree.name = .ok code) : Hashes engine tree code
  | pins (tree : PinTree) :
      Hashes engine tree ((tree.own :: tree.imports.map PinTree.pin).flatMap Utf8.ofText)
  | deeper {tree below : PinTree} {bytes : List UInt8} (hmem : below ∈ tree.imports)
      (h : Hashes engine below bytes) : Hashes engine tree bytes

/-- Two of the strings that are hashed for two trees have one digest. -/
def Collide (first second : Engine) (s t : PinTree) : Prop :=
  ∃ x y, (first.Hashes s x ∨ second.Hashes t x) ∧ (first.Hashes s y ∨ second.Hashes t y) ∧
    x ≠ y ∧ Digest.ofBytes x = Digest.ofBytes y

/-- The contracts at the roots of two trees have the same pins and the same code. -/
structure Agree (first second : Engine) (s t : PinTree) : Prop where
  pin : s.pin = t.pin
  own : s.own = t.own
  code : ∃ code, first.chain.fetch s.address s.name = .ok code ∧
    second.chain.fetch t.address t.name = .ok code

/-- What the pin of a tree is made of. -/
theorem IsPinTree.digests (h : engine.IsPinTree P tree) :
    (∃ code, engine.chain.fetch tree.address tree.name = .ok code ∧
      tree.own = Digest.ofBytes code) ∧
    tree.pin = Digest.ofTexts (tree.own :: tree.imports.map PinTree.pin) ∧
    ∀ below ∈ tree.imports, engine.IsPinTree P below := by
  cases h with
  | @node contract imports holds answered leads below =>
      obtain ⟨code, text, children, hcode, -, -, hcontract⟩ := inspect_eq_ok_iff.1 answered
      refine ⟨⟨code, hcode, ?_⟩, rfl, below⟩
      exact congrArg Fetched.own hcontract

/-- The texts that are hashed for a pin are digests themselves. -/
theorem IsPinTree.isDigest (h : engine.IsPinTree P tree) :
    ∀ part ∈ tree.own :: tree.imports.map PinTree.pin, Digest.IsDigest part := by
  obtain ⟨⟨code, -, hown⟩, -, hbelow⟩ := h.digests
  intro part hpart
  rcases List.mem_cons.1 hpart with rfl | hpart
  · exact ⟨code, hown⟩
  · obtain ⟨below, hmem, rfl⟩ := List.mem_map.1 hpart
    obtain ⟨-, hpin, -⟩ := (hbelow below hmem).digests
    exact ⟨_, hpin⟩

/-- Without a collision, one pin means the same parts. -/
theorem agree_of_pin_eq (hs : first.IsPinTree P s) (ht : second.IsPinTree Q t)
    (hcollide : ¬ Collide first second s t) (h : s.pin = t.pin) :
    Agree first second s t ∧ s.imports.map PinTree.pin = t.imports.map PinTree.pin := by
  obtain ⟨⟨code, hcode, hown⟩, hpin, -⟩ := hs.digests
  obtain ⟨⟨code', hcode', hown'⟩, hpin', -⟩ := ht.digests
  have hparts : s.own :: s.imports.map PinTree.pin = t.own :: t.imports.map PinTree.pin := by
    refine Digest.flatMap_ofText_inj hs.isDigest ht.isDigest ?_
    by_contra hne
    exact hcollide ⟨_, _, .inl (.pins s), .inr (.pins t), hne, hpin.symm.trans (h.trans hpin')⟩
  obtain ⟨hsame, hpins⟩ := List.cons.inj hparts
  have hcodes : code = code' := by
    by_contra hne
    exact hcollide ⟨_, _, .inl (.code hcode), .inr (.code hcode'), hne,
      hown.symm.trans (hsame.trans hown')⟩
  exact ⟨⟨h, hsame, code, hcode, hcodes ▸ hcode'⟩, hpins⟩

/-- What collides below two trees collides for them. -/
theorem Collide.of_mem {s' t' : PinTree} (hs : s' ∈ s.imports) (ht : t' ∈ t.imports)
    (h : Collide first second s' t') : Collide first second s t := by
  obtain ⟨x, y, hx, hy, hne, heq⟩ := h
  exact ⟨x, y, hx.imp (.deeper hs) (.deeper ht), hy.imp (.deeper hs) (.deeper ht), hne, heq⟩

/-- Without a collision, trees with one pin agree at every position. -/
theorem rel_below?_of_pin_eq (hs : first.IsPinTree P s) (ht : second.IsPinTree Q t)
    (hcollide : ¬ Collide first second s t) (h : s.pin = t.pin) (position : List Nat) :
    Option.Rel (Agree first second) (s.below? position) (t.below? position) := by
  obtain ⟨hagree, hpins⟩ := agree_of_pin_eq hs ht hcollide h
  induction position generalizing s t with
  | nil => exact .some hagree
  | cons i rest ih =>
      have hpin := congrArg (fun pins => pins[i]?) hpins
      simp only [List.getElem?_map] at hpin
      rw [PinTree.below?, PinTree.below?]
      cases hleft : s.imports[i]? with
      | none =>
          rw [hleft, Option.map_none, eq_comm, Option.map_eq_none_iff] at hpin
          rw [hpin]
          exact .none
      | some s' =>
          rw [hleft, Option.map_some, eq_comm, Option.map_eq_some_iff] at hpin
          obtain ⟨t', hright, hsame⟩ := hpin
          rw [hright]
          have hmem := List.mem_of_getElem? hleft
          have hmem' := List.mem_of_getElem? hright
          have hs' := hs.digests.2.2 s' hmem
          have ht' := ht.digests.2.2 t' hmem'
          have hfree : ¬ Collide first second s' t' := fun hc => hcollide (hc.of_mem hmem hmem')
          obtain ⟨hagree', hpins'⟩ := agree_of_pin_eq hs' ht' hfree hsame.symm
          exact ih hs' ht' hfree hsame.symm hagree' hpins'

/-- A pin commits to everything below it: trees with one pin have the same shape, and the same
pins and code at every position, unless two strings that were hashed for them collide. -/
theorem rel_below?_or_collide (hs : first.Returns s) (ht : second.Returns t) (h : s.pin = t.pin) :
    (∀ position, Option.Rel (Agree first second) (s.below? position) (t.below? position)) ∨
      ∃ x y, (first.Hashes s x ∨ second.Hashes t x) ∧ (first.Hashes s y ∨ second.Hashes t y) ∧
        x ≠ y ∧ Digest.ofBytes x = Digest.ofBytes y := by
  by_cases hcollide : Collide first second s t
  · exact .inr hcollide
  · exact .inl (rel_below?_of_pin_eq hs.isPinTree ht.isPinTree hcollide h)

/-- The tree of a shop that imports a token. -/
def shopTree (shop token : Site) : PinTree :=
  Assembly.node ⟨shop, Digest.ofText shopText, [token]⟩
    [Assembly.node ⟨token, Digest.ofText tokenText, []⟩ []]

theorem isPinTree_shopTree {shop : Site} (found : Resolved)
    (hshop : shop.IsCanonical) (htoken : Site.IsCanonical ⟨found.contract, found.address⟩)
    (hshopCode : engine.chain.fetch shop.address shop.name = .ok (Utf8.ofText shopText))
    (htokenCode : engine.chain.fetch found.address found.contract = .ok (Utf8.ofText tokenText))
    (hfound : engine.registry.resolve ⟨"Token", none⟩ engine.network = .ok found) :
    engine.IsPinTree Site.IsCanonical (shopTree shop ⟨found.contract, found.address⟩) := by
  have hnone : engine.childrenOf tokenText.toList = .ok [] := by
    rw [childrenOf, String.ofList_toList, importsOf_tokenText]
    rfl
  have hone : engine.childrenOf shopText.toList = .ok [⟨found.contract, found.address⟩] := by
    rw [childrenOf_eq_ok_iff, String.ofList_toList, importsOf_shopText]
    exact .cons ⟨found, hfound, rfl⟩ .nil
  have htokenRead : engine.inspect ⟨found.contract, found.address⟩ =
      .ok ⟨⟨found.contract, found.address⟩, Digest.ofText tokenText, []⟩ :=
    inspect_eq_ok_iff.2 ⟨_, _, [], htokenCode, Utf8.decode_ofText tokenText, hnone, rfl⟩
  have hshopRead : engine.inspect shop =
      .ok ⟨shop, Digest.ofText shopText, [⟨found.contract, found.address⟩]⟩ :=
    inspect_eq_ok_iff.2 ⟨_, _, _, hshopCode, Utf8.decode_ofText shopText, hone, rfl⟩
  refine .node hshop hshopRead (.cons rfl .nil) ?_
  intro tree htree
  rw [List.mem_singleton.1 htree]
  exact .node htoken htokenRead .nil (by simp)

/-- The same two contracts on two networks, the token at different addresses. -/
theorem rel_below?_or_collide_shopOn :
    ∃ s t, (shopOn "testnet" "0x1").Returns s ∧ (shopOn "emulator" "0x3").Returns t ∧
      s.pin = t.pin ∧
      ((∀ position, Option.Rel (Agree (shopOn "testnet" "0x1") (shopOn "emulator" "0x3"))
          (s.below? position) (t.below? position)) ∨
        ∃ x y, ((shopOn "testnet" "0x1").Hashes s x ∨ (shopOn "emulator" "0x3").Hashes t x) ∧
          ((shopOn "testnet" "0x1").Hashes s y ∨ (shopOn "emulator" "0x3").Hashes t y) ∧
          x ≠ y ∧ Digest.ofBytes x = Digest.ofBytes y) := by
  have hs : (shopOn "testnet" "0x1").IsPinTree Site.IsCanonical
      (shopTree ⟨"Shop", "0x0000000000000002"⟩ ⟨"Token", "0x0000000000000001"⟩) :=
    isPinTree_shopTree ⟨"Token", "testnet", "0x0000000000000001", none⟩ (by decide)
      (by decide) (by decide) (by decide) (by decide)
  have ht : (shopOn "emulator" "0x3").IsPinTree Site.IsCanonical
      (shopTree ⟨"Shop", "0x0000000000000002"⟩ ⟨"Token", "0x0000000000000003"⟩) :=
    isPinTree_shopTree ⟨"Token", "emulator", "0x0000000000000003", none⟩ (by decide)
      (by decide) (by decide) (by decide) (by decide)
  have hs' := returns_of_isPinTree (onHex_shopOn (by decide) (by decide)) hs
  have ht' := returns_of_isPinTree (onHex_shopOn (by decide) (by decide)) ht
  exact ⟨_, _, hs', ht', rfl, rel_below?_or_collide hs' ht' rfl⟩

end Engine

end Interaction
