import Interaction.Proofs.Template.Canonical
import Interaction.Proofs.Template.Layout
import Interaction.Proofs.Template.Sealing

/-!
# Saying the same in another order

A listed document can be written in many ways that say the same: messages, phrases, placements,
parameters and network pins may come in any order as long as no two of a kind have one name, and
neither the stored id nor the height or the inner nodes of a pin matter. One document `Restates`
another if they differ in nothing else; then they have one canonical form and one id.
-/

namespace Interaction

variable {α β γ δ : Type}

/-- The same items, whose order may differ only if no two of them have one key. -/
def Shuffled (key : α → β) (items others : List α) : Prop :=
  items = others ∨ items.Perm others ∧ (items.map key).Nodup

/-- Items that say the same one by one, once the first list has been shuffled. -/
def Rearranged (key : α → β) (Same : α → α → Prop) (items others : List α) : Prop :=
  ∃ shuffled, Shuffled key items shuffled ∧ List.Forall₂ Same shuffled others

/-- One message with its phrases in any order. -/
structure Message.Restates (m n : Message) : Prop where
  key : m.key = n.key
  phrases : Shuffled Phrase.tag m.phrases n.phrases

namespace Listed

/-- One placement with a pin of the same root, whatever its height and its inner nodes. -/
structure Deployment.Restates (d e : Deployment) : Prop where
  network : d.network = e.network
  address : d.address = e.address
  root : d.pin.map PinTree.pin = e.pin.map PinTree.pin

structure Contract.Restates (c d : Contract) : Prop where
  contract : c.contract = d.contract
  networks : Rearranged Deployment.network Deployment.Restates c.networks d.networks

structure Slot.Restates (s t : Slot) : Prop where
  label : s.label = t.label
  index : s.index = t.index
  type : s.type = t.type
  messages : Rearranged Message.key Message.Restates s.messages t.messages

/-- One document with its parts in any order, but for the groups of dependencies and the contracts
in them. The stored id does not matter, nor do the tags that tell what document it is. -/
structure Document.Restates (d e : Document) : Prop where
  kind : d.contents.kind = e.contents.kind
  interface : d.contents.interface = e.contents.interface
  messages : Rearranged Message.key Message.Restates d.contents.messages e.contents.messages
  body : d.contents.code.body = e.contents.code.body
  networkPins :
    Shuffled NetworkPin.network d.contents.code.networkPins e.contents.code.networkPins
  dependencies : List.Forall₂ (List.Forall₂ Contract.Restates) d.contents.dependencies
    e.contents.dependencies
  parameters :
    Rearranged Slot.index Slot.Restates d.contents.parameters e.contents.parameters
  output : Option.Rel Slot.Restates d.contents.output e.contents.output

end Listed

/-! ### Shuffled lists -/

theorem Shuffled.map {key : α → β} {other : γ → β} {f : α → γ} {items others : List α}
    (h : Shuffled key items others) (hkey : ∀ a, other (f a) = key a) :
    Shuffled other (items.map f) (others.map f) := by
  rcases h with rfl | ⟨hperm, hnodup⟩
  · exact .inl rfl
  · refine .inr ⟨hperm.map f, ?_⟩
    have hkeys : (items.map f).map other = items.map key := by
      rw [List.map_map]
      exact List.map_congr_left fun a _ => hkey a
    rwa [hkeys]

theorem Shuffled.reordered {name : α → String} {items others : List α}
    (h : Shuffled name items others) : Reordered name items others := by
  rcases h with rfl | ⟨hperm, hnodup⟩
  · exact .refl items
  · exact .of_filter fun n =>
      filter_eq_of_perm hperm ((hperm.map name).nodup_iff.1 hnodup) n

theorem Rearranged.alike {name : α → String} {Same Like : α → α → Prop} {items others : List α}
    (h : Rearranged name Same items others) (himp : ∀ a b, Same a b → Like a b) :
    Alike name Like items others := by
  obtain ⟨shuffled, hshuffled, hsame⟩ := h
  exact ⟨shuffled, others, hshuffled.reordered, .refl others, hsame.imp himp⟩

theorem Rearranged.map {key : α → β} {other : γ → β} {Same : α → α → Prop} {Like : γ → γ → Prop}
    {f : α → γ} {items others : List α} (h : Rearranged key Same items others)
    (hkey : ∀ a, other (f a) = key a) (himp : ∀ a b, Same a b → Like (f a) (f b)) :
    Rearranged other Like (items.map f) (others.map f) := by
  obtain ⟨shuffled, hshuffled, hsame⟩ := h
  refine ⟨shuffled.map f, hshuffled.map hkey, ?_⟩
  rw [List.forall₂_map_left_iff, List.forall₂_map_right_iff]
  exact hsame.imp himp

/-- Items that are related one by one still are after both lists have been sorted by what related
items have in common. -/
theorem forall₂_mergeSort {R : α → β → Prop} {le : α → α → Bool} {le' : β → β → Bool}
    {items : List α} {others : List β} (h : List.Forall₂ R items others)
    (hle : ∀ a b c d, R a c → R b d → le a b = le' c d) :
    List.Forall₂ R (items.mergeSort le) (others.mergeSort le') := by
  obtain ⟨hlength, hzip⟩ := List.forall₂_iff_zip.1 h
  have hpairs : ∀ p ∈ items.zip others, R p.1 p.2 := fun p hp => hzip hp
  have hfirst : items.mergeSort le =
      ((items.zip others).mergeSort fun p q => le p.1 q.1).map Prod.fst := by
    rw [List.map_mergeSort (r := fun p q : α × β => le p.1 q.1) fun _ _ _ _ => rfl,
      List.map_fst_zip (Nat.le_of_eq hlength)]
  have hsecond : others.mergeSort le' =
      ((items.zip others).mergeSort fun p q => le p.1 q.1).map Prod.snd := by
    rw [List.map_mergeSort (s := le') fun p hp q hq => hle _ _ _ _ (hpairs p hp) (hpairs q hq),
      List.map_snd_zip (Nat.le_of_eq hlength.symm)]
  rw [hfirst, hsecond, List.forall₂_map_left_iff, List.forall₂_map_right_iff, List.forall₂_same]
  exact fun p hp => hpairs p (List.mem_mergeSort.1 hp)

/-! ### Restated documents say the same -/

theorem Message.Restates.same {m n : Message} (h : m.Restates n) : m.Same n :=
  ⟨h.key, h.phrases.reordered⟩

theorem sameMessages_of_rearranged {ms ns : List Message}
    (h : Rearranged Message.key Message.Restates ms ns) : SameMessages ms ns :=
  h.alike fun _ _ => Message.Restates.same

namespace Listed

theorem Deployment.Restates.same {d e : Deployment} (h : d.Restates e) :
    d.toPlacement.Same e.toPlacement := by
  have hroot (d : Deployment) : d.toPlacement.root = (d.pin.map PinTree.pin).getD "" := by
    rw [Placement.root, toPlacement, Option.map_map]
    rfl
  refine ⟨h.network, h.address, ?_⟩
  rw [hroot, hroot, h.root]

theorem Contract.Restates.same {c d : Contract} (h : c.Restates d) :
    (Dependency.mk c.contract (c.networks.map Deployment.toPlacement)).Same
      ⟨d.contract, d.networks.map Deployment.toPlacement⟩ := by
  have hplacements : Rearranged Placement.network Placement.Same
      (c.networks.map Deployment.toPlacement) (d.networks.map Deployment.toPlacement) :=
    h.networks.map (fun _ => rfl) fun _ _ => Deployment.Restates.same
  exact ⟨h.contract, hplacements.alike fun _ _ => id⟩

theorem Slot.Restates.same {s t : Slot} (h : s.Restates t) (isOutput : Bool) :
    (s.toArgument isOutput).Same (t.toArgument isOutput) :=
  ⟨h.label, h.index, h.type, sameMessages_of_rearranged h.messages, rfl, rfl⟩

theorem rel_output {o o' : Option Slot} (h : Option.Rel Slot.Restates o o') :
    Option.Rel Argument.Same (o.map (Slot.toArgument true)) (o'.map (Slot.toArgument true)) := by
  cases h with
  | some hst => exact .some (hst.same true)
  | none => exact .none

namespace Document.Restates

variable {d e : Document}

theorem same_dependencies (h : d.Restates e) :
    List.Forall₂ Dependency.Same d.dependencies e.dependencies := by
  have hcontracts : List.Forall₂ Contract.Restates d.contents.dependencies.flatten
      e.contents.dependencies.flatten := List.rel_flatten h.dependencies
  rw [Document.dependencies, Document.dependencies, List.forall₂_map_left_iff,
    List.forall₂_map_right_iff]
  exact hcontracts.imp fun _ _ => Contract.Restates.same

/-- Parameters of distinct indices have one order, so it does not matter in which they are
stored. -/
theorem same_parameters (h : d.Restates e) :
    List.Forall₂ Argument.Same d.parameters e.parameters := by
  have hslots : Rearranged Argument.index Argument.Same
      (d.contents.parameters.map (Slot.toArgument false))
      (e.contents.parameters.map (Slot.toArgument false)) :=
    h.parameters.map (fun _ => rfl) fun _ _ hst => hst.same false
  obtain ⟨shuffled, hshuffled, hsame⟩ := hslots
  have hsorted : d.parameters = shuffled.mergeSort fun a b => a.index ≤ b.index := by
    rcases hshuffled with heq | ⟨hperm, hnodup⟩
    · rw [← heq]
      rfl
    · exact mergeSort_index_of_perm hperm hnodup
  rw [hsorted]
  refine forall₂_mergeSort hsame ?_
  intro a b c d hac hbd
  rw [hac.index, hbd.index]

theorem same_view (h : d.Restates e) : d.view.Same e.view where
  format := rfl
  kind := congrArg Kind.ofName? h.kind
  interface := h.interface
  messages := sameMessages_of_rearranged h.messages
  body := h.body
  dependencies := h.same_dependencies
  parameters := h.same_parameters
  output := fun _ => rel_output h.output
  networkPins := h.networkPins.reordered

end Document.Restates

end Listed

/-! ### The id of a restated document -/

namespace Template

/-- What is sealed does not depend on the id that was stored. -/
theorem sealed_setId (t : Template) (id : String) : (t.setId id).sealed = t.sealed := by
  rw [sealed, sealed, computeId, computeId, canonicalText_setId, setId_setId]

/-- A document that says the same in another order, with other heights and other inner pins has the
same canonical bytes and the same id. Whatever id was stored, the one that a document is sealed with
belongs to it, and sealing it again changes nothing. -/
theorem canonicalText_of_restates {d e : Listed.Document} (h : d.Restates e) :
    Utf8.ofText (listed d).canonicalText = Utf8.ofText (listed e).canonicalText ∧
      (listed d).computeId = (listed e).computeId ∧
      (∀ id, ((listed d).setId id).sealed.verifyId = true) ∧
      (listed d).sealed.sealed = (listed d).sealed := by
  have htext : (listed d).canonicalText = (listed e).canonicalText :=
    canonicalText_eq_iff.2 h.same_view
  refine ⟨congrArg Utf8.ofText htext, congrArg Digest.ofText htext, ?_, ?_⟩
  · exact fun id => verifyId_sealed ((listed d).setId id)
  · exact sealed_setId (listed d) _

/-- A transaction with two messages, two parameters and a contract on two networks. -/
def gift (id : String) (messages : List Message) (deployments : List Listed.Deployment)
    (parameters : List Listed.Slot) (pins : List NetworkPin) : Listed.Document where
  type := documentType
  version := Format.listed.tag
  id := id
  contents := {
    kind := "transaction"
    messages := messages
    code := {
      body := "import \"Token\"\ntransaction(a: Int, b: Int) \x7b\x7d\n"
      networkPins := pins }
    dependencies := [[⟨"Token", deployments⟩]]
    parameters := parameters }

/-- The transaction as one writer stores it. -/
def giftForward : Listed.Document :=
  gift "" [⟨"title", [⟨"en-US", "Gift"⟩, ⟨"de", "Geschenk"⟩]⟩, ⟨"description", []⟩]
    [⟨"testnet", "0x1", 5, some ⟨"aa", "bb", "Token", "0x1", [⟨"cc", "cc", "Base", "0x3", []⟩]⟩⟩,
      ⟨"mainnet", "0x2", 6, none⟩]
    [⟨"b", 1, "Int", []⟩, ⟨"a", 0, "Int", []⟩] [⟨"testnet", "dd"⟩, ⟨"mainnet", "ee"⟩]

/-- The transaction as another writer stores it. -/
def giftBackward : Listed.Document :=
  gift "ff" [⟨"description", []⟩, ⟨"title", [⟨"de", "Geschenk"⟩, ⟨"en-US", "Gift"⟩]⟩]
    [⟨"mainnet", "0x2", 0, none⟩, ⟨"testnet", "0x1", 9, some ⟨"aa", "", "Token", "0x1", []⟩⟩]
    [⟨"a", 0, "Int", []⟩, ⟨"b", 1, "Int", []⟩] [⟨"mainnet", "ee"⟩, ⟨"testnet", "dd"⟩]

theorem canonicalText_of_restates_gift : giftForward ≠ giftBackward ∧
    giftForward.Restates giftBackward ∧
    (listed giftForward).computeId = (listed giftBackward).computeId := by
  have hslot (label : String) (index : Nat) (type : String) :
      (Listed.Slot.mk label index type []).Restates ⟨label, index, type, []⟩ :=
    ⟨rfl, rfl, rfl, [], .inl rfl, .nil⟩
  have h : giftForward.Restates giftBackward := by
    refine ⟨rfl, rfl, ⟨_, .inr ⟨.swap _ _ _, by decide⟩, ?_⟩, rfl, .inr ⟨.swap _ _ _, by decide⟩,
      .cons (.cons ⟨rfl, _, .inr ⟨.swap _ _ _, by decide⟩, ?_⟩ .nil) .nil,
      ⟨_, .inr ⟨.swap _ _ _, by decide⟩, ?_⟩, .none⟩
    · exact .cons ⟨rfl, .inl rfl⟩ (.cons ⟨rfl, .inr ⟨.swap _ _ _, by decide⟩⟩ .nil)
    · exact .cons ⟨rfl, rfl, rfl⟩ (.cons ⟨rfl, rfl, rfl⟩ .nil)
    · exact .cons (hslot _ _ _) (.cons (hslot _ _ _) .nil)
  exact ⟨by decide, h, (canonicalText_of_restates h).2.1⟩

end Template

end Interaction
