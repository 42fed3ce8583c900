import Interaction.Proofs.Template.Decoding

/-!
# How deep a document is

Of all that a document holds only a pin tree can nest without a bound: the rest of a document ends
after a few levels, and a tree of a listed one starts eight levels down. So a document can be read
back exactly if none of its trees has more than `maxLevels` levels.
-/

namespace Interaction

namespace Json

theorem depths_le_iff {items : List Json} {n : Nat} :
    depths items ≤ n ↔ ∀ item ∈ items, item.depth ≤ n := by
  induction items with
  | nil => exact iff_of_true (Nat.zero_le n) (List.forall_mem_nil _)
  | cons item more ih => rw [depths, Nat.max_le, ih, List.forall_mem_cons]

theorem memberDepths_le_iff {members : List (String × Json)} {n : Nat} :
    memberDepths members ≤ n ↔ ∀ member ∈ members, member.2.depth ≤ n := by
  induction members with
  | nil => exact iff_of_true (Nat.zero_le n) (List.forall_mem_nil _)
  | cons member more ih => rw [memberDepths, Nat.max_le, ih, List.forall_mem_cons]

/-- An array is one level deeper than its items. -/
theorem depth_map_le_iff {α : Type} {f : α → Json} {as : List α} {n : Nat} :
    (Json.array (as.map f)).depth ≤ n + 1 ↔ ∀ a ∈ as, (f a).depth ≤ n := by
  rw [depth, Nat.add_le_add_iff_right, depths_le_iff, List.forall_mem_map]

theorem depth_table_le_iff {α : Type} {f : α → Json} {entries : List (String × α)} {n : Nat} :
    (Json.table f entries).depth ≤ n + 1 ↔ ∀ entry ∈ entries, (f entry.2).depth ≤ n := by
  rw [Json.table, depth, Nat.add_le_add_iff_right, memberDepths_le_iff, List.forall_mem_map]

/-- An object is one level deeper than its members. -/
theorem depth_object_le_iff {members : List (String × Json)} {n : Nat} :
    (Json.object members).depth ≤ n + 1 ↔ ∀ member ∈ members, member.2.depth ≤ n := by
  rw [depth, Nat.add_le_add_iff_right, memberDepths_le_iff]

theorem forall_mem_optional_iff {α : Type} {f : α → Json} {key : String} {value : Option α}
    {n : Nat} : (∀ member ∈ optional key (value.map f), member.2.depth ≤ n) ↔
      ∀ a ∈ value, (f a).depth ≤ n := by
  cases value <;> simp [optional]

end Json

open Json

theorem Message.depth_toJson_le (m : Message) : m.toJson.depth ≤ 3 := by
  rw [toJson, depth_object_le_iff]
  simp only [List.forall_mem_cons]
  exact ⟨Nat.zero_le _, depth_map_le_iff.2 fun _ _ => Nat.le_refl 1, List.forall_mem_nil _⟩

theorem depth_messages_le (ms : List Message) :
    (Json.array (ms.map Message.toJson)).depth ≤ 4 :=
  depth_map_le_iff.2 fun m _ => m.depth_toJson_le

namespace Keyed

theorem Texts.depth_toJson_le (texts : Texts) : texts.toJson.depth ≤ 3 := by
  have hphrases : ∀ t : Table String, (phrases t).depth ≤ 2 := by
    intro t
    rw [phrases, depth_object_le_iff, List.forall_mem_singleton]
    exact depth_table_le_iff.2 fun _ _ => Nat.le_refl 0
  rw [toJson, depth_object_le_iff, List.forall_mem_append, forall_mem_optional_iff,
    forall_mem_optional_iff]
  exact ⟨fun t _ => hphrases t, fun t _ => hphrases t⟩

theorem Slot.depth_toJson_le (slot : Slot) : slot.toJson.depth ≤ 4 := by
  rw [toJson, depth_object_le_iff]
  simp only [List.forall_mem_cons]
  exact ⟨Nat.zero_le _, Nat.zero_le _, slot.messages.depth_toJson_le, Nat.zero_le _,
    List.forall_mem_nil _⟩

theorem Contents.depth_toJson_le (c : Contents) : c.toJson.depth ≤ 6 := by
  have hdependencies : (Json.table (fun contracts => Json.table (fun networks =>
      Json.table Deployment.toJson networks.entries) contracts.entries)
        c.dependencies.entries).depth ≤ 4 :=
    depth_table_le_iff.2 fun _ _ => depth_table_le_iff.2 fun _ _ => depth_table_le_iff.2 fun _ _ =>
      Nat.le_refl 1
  have harguments : (Json.table Slot.toJson c.arguments.entries).depth ≤ 5 :=
    depth_table_le_iff.2 fun entry _ => entry.2.depth_toJson_le
  rw [toJson, depth_object_le_iff]
  simp only [List.forall_mem_cons]
  exact ⟨Nat.zero_le _, Nat.zero_le _, Nat.le_trans c.messages.depth_toJson_le (by decide),
    Nat.zero_le _, Nat.le_trans hdependencies (by decide), harguments, List.forall_mem_nil _⟩

theorem Document.depth_toJson_le (d : Document) : d.toJson.depth ≤ 7 := by
  rw [toJson, depth_object_le_iff]
  simp only [List.forall_mem_cons]
  exact ⟨Nat.zero_le _, Nat.zero_le _, Nat.zero_le _, d.contents.depth_toJson_le,
    List.forall_mem_nil _⟩

end Keyed

namespace Listed

theorem Deployment.depth_toJson_le_iff {d : Deployment} {n : Nat} :
    d.toJson.depth ≤ n + 1 ↔ ∀ tree ∈ d.pin, 2 * tree.levels ≤ n := by
  rw [toJson, depth_object_le_iff, List.forall_mem_append, forall_mem_optional_iff]
  simp only [List.forall_mem_cons, PinTree.depth_toJson]
  exact and_iff_right ⟨Nat.zero_le _, Nat.zero_le _, Nat.zero_le _, List.forall_mem_nil _⟩

theorem Contract.depth_toJson_le_iff {c : Contract} {n : Nat} :
    c.toJson.depth ≤ n + 3 ↔ ∀ d ∈ c.networks, ∀ tree ∈ d.pin, 2 * tree.levels ≤ n := by
  rw [toJson, depth_object_le_iff]
  simp only [List.forall_mem_cons, depth_map_le_iff, Deployment.depth_toJson_le_iff]
  exact ⟨fun h => h.2.1, fun h => ⟨Nat.zero_le _, h, List.forall_mem_nil _⟩⟩

theorem depth_groupToJson_le_iff {contracts : List Contract} {n : Nat} :
    (groupToJson contracts).depth ≤ n + 5 ↔
      ∀ c ∈ contracts, ∀ d ∈ c.networks, ∀ tree ∈ d.pin, 2 * tree.levels ≤ n := by
  rw [groupToJson, depth_object_le_iff, List.forall_mem_singleton]
  simp only [depth_map_le_iff, Contract.depth_toJson_le_iff]

theorem Slot.depth_toJson_le (slot : Slot) : slot.toJson.depth ≤ 5 := by
  rw [toJson, depth_object_le_iff]
  simp only [List.forall_mem_cons]
  exact ⟨Nat.zero_le _, Nat.zero_le _, Nat.zero_le _, depth_messages_le _, List.forall_mem_nil _⟩

theorem Code.depth_toJson_le (c : Code) : c.toJson.depth ≤ 3 := by
  rw [toJson, depth_object_le_iff]
  simp only [List.forall_mem_cons]
  exact ⟨Nat.zero_le _, depth_map_le_iff.2 fun _ _ => Nat.le_refl 1, List.forall_mem_nil _⟩

theorem Contents.depth_toJson_le_iff {c : Contents} {n : Nat} :
    c.toJson.depth ≤ n + 7 ↔ ∀ group ∈ c.dependencies, ∀ contract ∈ group,
      ∀ d ∈ contract.networks, ∀ tree ∈ d.pin, 2 * tree.levels ≤ n := by
  have hmessage (m : Message) : m.toJson.depth ≤ n + 5 :=
    Nat.le_trans m.depth_toJson_le (by omega)
  have hcode : c.code.toJson.depth ≤ n + 6 := Nat.le_trans c.code.depth_toJson_le (by omega)
  have hslot (slot : Slot) : slot.toJson.depth ≤ n + 5 :=
    Nat.le_trans slot.depth_toJson_le (by omega)
  rw [toJson, depth_object_le_iff, List.forall_mem_append, forall_mem_optional_iff]
  simp only [List.forall_mem_cons, depth_map_le_iff, depth_groupToJson_le_iff]
  constructor
  · exact fun h => h.1.2.2.2.2.1
  · intro h
    exact ⟨⟨Nat.zero_le _, Nat.zero_le _, fun m _ => hmessage m, hcode, h, fun slot _ => hslot slot,
      List.forall_mem_nil _⟩, fun slot _ => Nat.le_succ_of_le (hslot slot)⟩

theorem Document.depth_toJson_le_iff {d : Document} {n : Nat} :
    d.toJson.depth ≤ n + 8 ↔ ∀ group ∈ d.contents.dependencies, ∀ contract ∈ group,
      ∀ d ∈ contract.networks, ∀ tree ∈ d.pin, 2 * tree.levels ≤ n := by
  rw [toJson, depth_object_le_iff]
  simp only [List.forall_mem_cons, Contents.depth_toJson_le_iff]
  exact ⟨fun h => h.2.2.2.1, fun h =>
    ⟨Nat.zero_le _, Nat.zero_le _, Nat.zero_le _, h, List.forall_mem_nil _⟩⟩

end Listed

namespace Template

/-- The pin trees that a template stores. -/
def pinTrees : Template → List PinTree
  | keyed _ => []
  | listed document => document.contents.dependencies.flatten.flatMap fun contract =>
    contract.networks.filterMap Listed.Deployment.pin

/-- How many levels a pin tree may have in a document that can be read back. -/
def maxLevels : Nat := 59

theorem depth_toJson_le_iff {t : Template} :
    t.toJson.depth ≤ Json.Decoder.maxDepth ↔ ∀ tree ∈ t.pinTrees, tree.levels ≤ maxLevels := by
  cases t with
  | keyed document =>
      refine iff_of_true ?_ (List.forall_mem_nil _)
      exact Nat.le_trans document.depth_toJson_le (by decide)
  | listed document =>
      have hdepth : document.toJson.depth ≤ 119 + 8 ↔ _ := Listed.Document.depth_toJson_le_iff
      have hlevels : ∀ levels : Nat, 2 * levels ≤ 119 ↔ levels ≤ maxLevels := by
        intro levels
        rw [maxLevels]
        omega
      rw [toJson, Json.Decoder.maxDepth, hdepth]
      simp only [hlevels, pinTrees, List.mem_flatMap, List.mem_flatten, List.mem_filterMap]
      constructor
      · rintro h tree ⟨contract, ⟨group, hgroup, hcontract⟩, d, hd, htree⟩
        exact h group hgroup contract hcontract d hd tree htree
      · intro h group hgroup contract hcontract d hd tree htree
        exact h tree ⟨contract, ⟨group, hgroup, hcontract⟩, d, hd, htree⟩

end Template

end Interaction
