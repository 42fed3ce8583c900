import Interaction.Proofs.Json.Decoded
import Interaction.Proofs.Json.Outline
import Interaction.Proofs.Template.Sealing
import Interaction.Template.Read
import Interaction.Template.Written

/-!
# The numbers of a template

The heights and indices of a template are numbers of sixty-four bits: those of a draft are kept
where it is laid out, and those of a document were read off a text. What is written of such a
template has only numbers that are read back.
-/

namespace Interaction

open Json.Decoder

/-- Whether the indices and heights of a draft fit sixty-four bits. -/
structure Draft.FitsWords (draft : Draft) : Prop where
  parameters : ∀ argument ∈ draft.parameters, argument.index ≤ Decimal.wordMax
  output : ∀ argument ∈ draft.output, argument.index ≤ Decimal.wordMax
  heights : ∀ dependency ∈ draft.dependencies, ∀ placement ∈ dependency.placements,
    ∀ record ∈ placement.pin, record.height ≤ Decimal.wordMax

namespace Keyed

/-- Whether all deployments have heights of sixty-four bits. -/
def HeightsFit (dependencies : Table (Table (Table Deployment))) : Prop :=
  ∀ contracts ∈ dependencies.entries, ∀ networks ∈ contracts.2.entries,
    ∀ placed ∈ networks.2.entries, placed.2.height ≤ Decimal.wordMax

structure Contents.FitsWords (c : Contents) : Prop where
  heights : HeightsFit c.dependencies
  indices : ∀ entry ∈ c.arguments.entries, entry.2.index ≤ Decimal.wordMax

end Keyed

namespace Listed

structure Contents.FitsWords (c : Contents) : Prop where
  heights : ∀ group ∈ c.dependencies, ∀ contract ∈ group, ∀ d ∈ contract.networks,
    d.height ≤ Decimal.wordMax
  indices : ∀ slot ∈ c.parameters, slot.index ≤ Decimal.wordMax
  output : ∀ slot ∈ c.output, slot.index ≤ Decimal.wordMax

end Listed

/-- Whether the heights and indices of a template fit sixty-four bits. -/
def Template.FitsWords : Template → Prop
  | .keyed document => document.contents.FitsWords
  | .listed document => document.contents.FitsWords

/-! ### Laid out drafts -/

namespace Keyed

theorem height_ofPlacement {contract : String} {placement : Placement}
    (h : ∀ record ∈ placement.pin, record.height ≤ Decimal.wordMax) :
    (Deployment.ofPlacement contract placement).height ≤ Decimal.wordMax := by
  rw [Deployment.ofPlacement]
  cases hpin : placement.pin with
  | none => exact Nat.zero_le _
  | some record => exact h record hpin

theorem heightsFit_addDependency {known : Table (Table (Table Deployment))}
    (hknown : HeightsFit known) {dependency : Dependency}
    (h : ∀ placement ∈ dependency.placements, ∀ record ∈ placement.pin,
      record.height ≤ Decimal.wordMax) : HeightsFit (addDependency known dependency) := by
  intro contracts hcontracts networks hnetworks placed hplaced
  rcases Table.mem_insertEntry hcontracts with rfl | hcontracts
  · rcases Table.mem_insertEntry hnetworks with rfl | hnetworks
    · obtain ⟨placement, hplacement, rfl⟩ := List.mem_map.1 (Table.mem_of_mem_ofList hplaced)
      exact height_ofPlacement (h placement hplacement)
    · cases hold : known.get? (placeholder dependency.contract) with
      | none =>
          rw [hold] at hnetworks
          cases hnetworks
      | some old =>
          rw [hold] at hnetworks
          exact hknown _ (Table.get?_eq_some_iff.1 hold) networks hnetworks placed hplaced
  · exact hknown contracts hcontracts networks hnetworks placed hplaced

/-- By induction on the dependencies. -/
theorem heightsFit_foldl {dependencies : List Dependency} {known : Table (Table (Table Deployment))}
    (hknown : HeightsFit known)
    (h : ∀ dependency ∈ dependencies, ∀ placement ∈ dependency.placements,
      ∀ record ∈ placement.pin, record.height ≤ Decimal.wordMax) :
    HeightsFit (dependencies.foldl addDependency known) := by
  induction dependencies generalizing known with
  | nil => exact hknown
  | cons dependency more ih =>
      exact ih (heightsFit_addDependency hknown (h dependency (.head _)))
        fun d hd => h d (.tail _ hd)

theorem fitsWords_ofDraft {draft : Draft} (h : draft.FitsWords) :
    (Document.ofDraft draft).contents.FitsWords where
  heights := heightsFit_foldl nofun h.heights
  indices := by
    intro entry hentry
    obtain ⟨argument, hargument, rfl⟩ := List.mem_map.1 (Table.mem_of_mem_ofList hentry)
    exact h.parameters argument hargument

end Keyed

namespace Listed

theorem height_ofPlacement {placement : Placement}
    (h : ∀ record ∈ placement.pin, record.height ≤ Decimal.wordMax) :
    (Deployment.ofPlacement placement).height ≤ Decimal.wordMax := by
  rw [Deployment.ofPlacement]
  split
  next height pin tree hpin => exact h ⟨height, pin, some tree⟩ hpin
  next => exact Nat.zero_le _

theorem fitsWords_ofDraft {draft : Draft} (h : draft.FitsWords) :
    (Document.ofDraft draft).contents.FitsWords where
  heights := by
    intro group hgroup contract hcontract d hd
    obtain ⟨dependency, hdependency, rfl⟩ := List.mem_map.1 hgroup
    obtain rfl := List.mem_singleton.1 hcontract
    obtain ⟨placement, hplacement, rfl⟩ := List.mem_map.1 hd
    exact height_ofPlacement (h.heights dependency hdependency placement hplacement)
  indices := by
    intro slot hslot
    obtain ⟨argument, hargument, rfl⟩ := List.mem_map.1 hslot
    exact h.parameters argument hargument
  output := by
    intro slot hslot
    obtain ⟨argument, hargument, rfl⟩ := Option.map_eq_some_iff.1 hslot
    exact h.output argument hargument

end Listed

namespace Template

theorem fitsWords_ofDraft {draft : Draft} (h : draft.FitsWords) : (ofDraft draft).FitsWords := by
  rw [ofDraft]
  split
  · exact Keyed.fitsWords_ofDraft h
  · exact Listed.fitsWords_ofDraft h

theorem FitsWords.setId {t : Template} (h : t.FitsWords) (id : String) : (t.setId id).FitsWords := by
  cases t <;> exact h

theorem FitsWords.setNetworkPins {t : Template} (h : t.FitsWords) (pins : List NetworkPin) :
    (t.setNetworkPins pins).FitsWords := by
  cases t with
  | keyed document => exact h
  | listed document => exact ⟨h.heights, h.indices, h.output⟩

end Template

/-! ### Decoded documents -/

namespace Keyed

theorem Deployment.yields_decode : Yields Deployment.decode (·.height ≤ Decimal.wordMax) := by
  refine yields_record (Nat.zero_le _) ?_
  simp only [List.forall_mem_cons]
  exact ⟨keeps_required_of_put fun _ _ hr => hr, keeps_defaulted_of_put fun _ _ hr => hr,
    keeps_defaulted_of_put fun _ _ hr => hr, keeps_defaulted_of_put fun _ _ hr => hr,
    keeps_defaulted (yields_natural _) fun _ _ hn _ => hn, nofun⟩

theorem Slot.yields_decode : Yields Slot.decode (·.index ≤ Decimal.wordMax) := by
  refine yields_record (Nat.zero_le _) ?_
  simp only [List.forall_mem_cons]
  exact ⟨keeps_required (yields_natural _) fun _ _ hn _ => hn,
    keeps_required_of_put fun _ _ hr => hr, keeps_defaulted_of_put fun _ _ hr => hr,
    keeps_defaulted_of_put fun _ _ hr => hr, nofun⟩

theorem Contents.yields_decode : Yields Contents.decode Contents.FitsWords := by
  refine yields_record ⟨nofun, nofun⟩ ?_
  simp only [List.forall_mem_cons]
  refine ⟨keeps_required_of_put fun _ _ hr => ⟨hr.heights, hr.indices⟩,
    keeps_defaulted_of_put fun _ _ hr => ⟨hr.heights, hr.indices⟩,
    keeps_defaulted_of_put fun _ _ hr => ⟨hr.heights, hr.indices⟩,
    keeps_required_of_put fun _ _ hr => ⟨hr.heights, hr.indices⟩,
    keeps_defaulted (.orDefault Deployment.yields_decode.table.table.table ?_)
      fun _ _ hheights hr => ⟨hheights, hr.indices⟩,
    keeps_defaulted (.orDefault Slot.yields_decode.table ?_)
      fun _ _ hindices hr => ⟨hr.heights, hindices⟩, nofun⟩
  · exact nofun
  · exact nofun

theorem Document.yields_decode : Yields Document.decode fun d => d.contents.FitsWords := by
  refine yields_record ⟨nofun, nofun⟩ ?_
  simp only [List.forall_mem_cons]
  exact ⟨keeps_required_of_put fun _ _ hr => hr, keeps_required_of_put fun _ _ hr => hr,
    keeps_defaulted_of_put fun _ _ hr => hr,
    keeps_required Contents.yields_decode fun _ _ hcontents _ => hcontents, nofun⟩

end Keyed

namespace Listed

theorem Deployment.yields_decode : Yields Deployment.decode (·.height ≤ Decimal.wordMax) := by
  refine yields_record (Nat.zero_le _) ?_
  simp only [List.forall_mem_cons]
  exact ⟨keeps_required_of_put fun _ _ hr => hr, keeps_required_of_put fun _ _ hr => hr,
    keeps_defaulted (yields_natural _) fun _ _ hn _ => hn,
    keeps_defaulted_of_put fun _ _ hr => hr, nofun⟩

theorem Contract.yields_decode :
    Yields Contract.decode fun c => ∀ d ∈ c.networks, d.height ≤ Decimal.wordMax := by
  refine yields_record nofun ?_
  simp only [List.forall_mem_cons]
  exact ⟨keeps_required_of_put fun _ _ hr => hr,
    keeps_defaulted (.orDefault Deployment.yields_decode.list nofun) fun _ _ hds _ => hds, nofun⟩

theorem yields_decodeGroup :
    Yields decodeGroup fun group => ∀ c ∈ group, ∀ d ∈ c.networks, d.height ≤ Decimal.wordMax := by
  refine yields_record nofun ?_
  simp only [List.forall_mem_cons]
  exact ⟨keeps_defaulted (.orDefault Contract.yields_decode.list nofun) fun _ _ hcs _ => hcs, nofun⟩

theorem Slot.yields_decode : Yields Slot.decode (·.index ≤ Decimal.wordMax) := by
  refine yields_record (Nat.zero_le _) ?_
  simp only [List.forall_mem_cons]
  exact ⟨keeps_required_of_put fun _ _ hr => hr,
    keeps_defaulted (yields_natural _) fun _ _ hn _ => hn,
    keeps_required_of_put fun _ _ hr => hr, keeps_defaulted_of_put fun _ _ hr => hr, nofun⟩

theorem Contents.yields_decode : Yields Contents.decode Contents.FitsWords := by
  refine yields_record ⟨nofun, nofun, nofun⟩ ?_
  simp only [List.forall_mem_cons]
  exact ⟨keeps_required_of_put fun _ _ hr => ⟨hr.heights, hr.indices, hr.output⟩,
    keeps_defaulted_of_put fun _ _ hr => ⟨hr.heights, hr.indices, hr.output⟩,
    keeps_defaulted_of_put fun _ _ hr => ⟨hr.heights, hr.indices, hr.output⟩,
    keeps_required_of_put fun _ _ hr => ⟨hr.heights, hr.indices, hr.output⟩,
    keeps_defaulted (.orDefault yields_decodeGroup.list nofun)
      fun _ _ hheights hr => ⟨hheights, hr.indices, hr.output⟩,
    keeps_defaulted (.orDefault Slot.yields_decode.list nofun)
      fun _ _ hindices hr => ⟨hr.heights, hindices, hr.output⟩,
    keeps_defaulted Slot.yields_decode.nullable
      fun _ _ houtput hr => ⟨hr.heights, hr.indices, houtput⟩, nofun⟩

theorem Document.yields_decode : Yields Document.decode fun d => d.contents.FitsWords := by
  refine yields_record ⟨nofun, nofun, nofun⟩ ?_
  simp only [List.forall_mem_cons]
  exact ⟨keeps_required_of_put fun _ _ hr => hr, keeps_required_of_put fun _ _ hr => hr,
    keeps_defaulted_of_put fun _ _ hr => hr,
    keeps_required Contents.yields_decode fun _ _ hcontents _ => hcontents, nofun⟩

end Listed

/-! ### Written documents -/

namespace Keyed

theorem Texts.fitsWords_toJson (texts : Texts) : texts.toJson.FitsWords := by
  have hphrases : ∀ t : Table String, (Texts.phrases t).FitsWords := fun t =>
    .member (Json.fitsWords_table fun entry _ => .string entry.2) .empty
  rw [Texts.toJson, ← List.append_nil (Json.optional "description" _)]
  refine .optional (fun v hv => ?_) (.optional (fun v hv => ?_) .empty)
  all_goals
    obtain ⟨t, -, rfl⟩ := Option.map_eq_some_iff.1 hv
    exact hphrases t

theorem Deployment.fitsWords_toJson {d : Deployment} (h : d.height ≤ Decimal.wordMax) :
    d.toJson.FitsWords :=
  .member (.string _) <| .member (.string _) <| .member (.string _) <| .member (.string _) <|
    .member (.nat h) .empty

theorem Slot.fitsWords_toJson {slot : Slot} (h : slot.index ≤ Decimal.wordMax) :
    slot.toJson.FitsWords :=
  .member (.nat h) <| .member (.string _) <| .member slot.messages.fitsWords_toJson <|
    .member (.string _) .empty

theorem Contents.fitsWords_toJson {c : Contents} (h : c.FitsWords) : c.toJson.FitsWords := by
  refine .member (.string _) <| .member (.string _) <| .member c.messages.fitsWords_toJson <|
    .member (.string _) <| .member ?_ <| .member ?_ .empty
  · exact Json.fitsWords_table fun contracts hcontracts =>
      Json.fitsWords_table fun networks hnetworks =>
        Json.fitsWords_table fun placed hplaced =>
          Deployment.fitsWords_toJson (h.heights contracts hcontracts networks hnetworks placed hplaced)
  · exact Json.fitsWords_table fun entry hentry => Slot.fitsWords_toJson (h.indices entry hentry)

end Keyed

theorem Message.fitsWords_toJson (m : Message) : m.toJson.FitsWords :=
  .member (.string _) <| .member (Json.fitsWords_map fun _ _ =>
    .member (.string _) <| .member (.string _) .empty) .empty

mutual

theorem PinTree.fitsWords_toJson : (tree : PinTree) → tree.toJson.FitsWords
  | ⟨_, _, _, _, imports⟩ => by
    rw [PinTree.toJson]
    exact .member (.string _) <| .member (.string _) <| .member (.string _) <|
      .member (.string _) <| .member (.array (PinTree.fitsWords_toJsons imports)) .empty

theorem PinTree.fitsWords_toJsons :
    (trees : List PinTree) → ∀ v ∈ PinTree.toJsons trees, v.FitsWords
  | [] => nofun
  | tree :: more =>
    List.forall_mem_cons.2 ⟨PinTree.fitsWords_toJson tree, PinTree.fitsWords_toJsons more⟩

end

namespace Listed

theorem Deployment.fitsWords_toJson {d : Deployment} (h : d.height ≤ Decimal.wordMax) :
    d.toJson.FitsWords := by
  rw [Deployment.toJson, ← List.append_nil (Json.optional "dependency_pin" _)]
  refine .member (.string _) <| .member (.string _) <| .member (.nat h) <|
    .optional (fun v hv => ?_) .empty
  obtain ⟨tree, -, rfl⟩ := Option.map_eq_some_iff.1 hv
  exact tree.fitsWords_toJson

theorem Slot.fitsWords_toJson {slot : Slot} (h : slot.index ≤ Decimal.wordMax) :
    slot.toJson.FitsWords :=
  .member (.string _) <| .member (.nat h) <| .member (.string _) <|
    .member (Json.fitsWords_map fun m _ => m.fitsWords_toJson) .empty

theorem Code.fitsWords_toJson (c : Code) : c.toJson.FitsWords :=
  .member (.string _) <| .member (Json.fitsWords_map fun _ _ =>
    .member (.string _) <| .member (.string _) .empty) .empty

theorem Contents.fitsWords_toJson {c : Contents} (h : c.FitsWords) : c.toJson.FitsWords := by
  rw [Contents.toJson, ← List.append_nil (Json.optional "output" _)]
  refine .member (.string _) <| .member (.string _) <|
    .member (Json.fitsWords_map fun m _ => m.fitsWords_toJson) <|
    .member c.code.fitsWords_toJson <| .member ?_ <| .member ?_ <| .optional ?_ .empty
  · refine Json.fitsWords_map fun group hgroup => .member (Json.fitsWords_map ?_) .empty
    exact fun contract hcontract => .member (.string _) <| .member (Json.fitsWords_map fun d hd =>
      Deployment.fitsWords_toJson (h.heights group hgroup contract hcontract d hd)) .empty
  · exact Json.fitsWords_map fun slot hslot => Slot.fitsWords_toJson (h.indices slot hslot)
  · intro v hv
    obtain ⟨slot, hslot, rfl⟩ := Option.map_eq_some_iff.1 hv
    exact Slot.fitsWords_toJson (h.output slot hslot)

end Listed

/-- What is written of a template has only numbers that are read back. -/
theorem Template.fitsWords_toJson {t : Template} (h : t.FitsWords) : t.toJson.FitsWords := by
  cases t with
  | keyed document =>
      exact .member (.string _) <| .member (.string _) <| .member (.string _) <|
        .member (Keyed.Contents.fitsWords_toJson h) .empty
  | listed document =>
      exact .member (.string _) <| .member (.string _) <| .member (.string _) <|
        .member (Listed.Contents.fitsWords_toJson h) .empty

end Interaction
