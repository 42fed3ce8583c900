import Interaction.Proofs.Json.Decoder
import Interaction.Template.Read
import Interaction.Template.Written

/-!
# Decoding what was written of a template

Every part of a document is decoded from what was written of it, unless that is nested too deeply.
Each level of a pin tree nests two deep, so nothing but a pin tree can be deeper than a few levels.
-/

namespace Interaction

open Json.Decoder

variable {depth : Nat}

namespace Keyed

theorem Texts.decodes_phrases (texts : Table String) :
    Decodes depth Texts.decodePhrases (Texts.phrases texts) texts :=
  decodes_record (by decide) fun _ _ =>
    .defaulted ((decodes_table fun _ _ entry _ => decodes_string entry.2).orDefault nofun ∅)
      (.done texts)

theorem Texts.decodes (texts : Texts) : Decodes depth Texts.decode texts.toJson texts := by
  rw [Texts.toJson, ← List.append_nil (Json.optional "description" _)]
  exact decodes_record (by decide) fun _ _ =>
    .optional (fun title _ => ⟨decodes_phrases title, nofun⟩) rfl
    (.optional (fun description _ => ⟨decodes_phrases description, nofun⟩) rfl (.done texts))

theorem Deployment.decodes (d : Deployment) : Decodes depth Deployment.decode d.toJson d :=
  decodes_record (by decide) fun _ _ =>
    .required (decodes_string _) <| .defaulted (decodes_string _) <|
    .defaulted (decodes_string _) <| .defaulted (decodes_string _) <|
    .defaulted (decodes_natural "u64" _) (.done d)

theorem Slot.decodes (slot : Slot) : Decodes depth Slot.decode slot.toJson slot :=
  decodes_record (by decide) fun _ _ =>
    .required (decodes_natural "usize" _) <| .required (decodes_string _) <|
    .defaulted slot.messages.decodes <| .defaulted (decodes_string _) (.done slot)

theorem Contents.decodes (c : Contents) : Decodes depth Contents.decode c.toJson c :=
  decodes_record (by decide) fun _ _ =>
    .required (decodes_string _) <| .defaulted (decodes_string _) <|
    .defaulted c.messages.decodes <| .required (decodes_string _) <|
    .defaulted ((decodes_table fun _ _ _ _ => decodes_table fun _ _ _ _ =>
      decodes_table fun _ _ placed _ => placed.2.decodes).orDefault nofun ∅) <|
    .defaulted ((decodes_table fun _ _ entry _ => entry.2.decodes).orDefault nofun ∅) (.done c)

theorem Document.decodes (d : Document) : Decodes depth Document.decode d.toJson d :=
  decodes_record (by decide) fun _ _ =>
    .required (decodes_string _) <| .required (decodes_string _) <|
    .defaulted (decodes_string _) <| .required d.contents.decodes (.done d)

end Keyed

theorem Phrase.decodes (p : Phrase) : Decodes depth Phrase.decode p.toJson p :=
  decodes_record (by decide) fun _ _ =>
    .required (decodes_string _) <| .required (decodes_string _) (.done p)

theorem Message.decodes (m : Message) : Decodes depth Message.decode m.toJson m :=
  decodes_record (by decide) fun _ _ =>
    .required (decodes_string _) <|
    .defaulted ((decodes_list fun _ _ p _ => p.decodes).orDefault nofun []) (.done m)

theorem NetworkPin.decodes (p : NetworkPin) : Decodes depth NetworkPin.decode p.toJson p :=
  decodes_record (by decide) fun _ _ =>
    .required (decodes_string _) <| .required (decodes_string _) (.done p)

namespace PinTree

mutual

/-- How many contracts import each other down the longest branch of a tree. -/
def levels : PinTree → Nat
  | ⟨_, _, _, _, imports⟩ => mostLevels imports + 1

def mostLevels : List PinTree → Nat
  | [] => 0
  | tree :: more => max tree.levels (mostLevels more)

end

theorem toJsons_eq_map (trees : List PinTree) : toJsons trees = trees.map toJson := by
  induction trees with
  | nil => rw [toJsons, List.map_nil]
  | cons tree more ih => rw [toJsons, ih, List.map_cons]

mutual

/-- A level is an object with an array in it. -/
theorem depth_toJson : (tree : PinTree) → tree.toJson.depth = 2 * tree.levels
  | ⟨pin, own, name, address, imports⟩ => by
    have himports := depths_toJsons imports
    simp only [toJson, Json.depth, Json.memberDepths, levels]
    omega

theorem depths_toJsons : (trees : List PinTree) →
    Json.depths (toJsons trees) = 2 * mostLevels trees
  | [] => rfl
  | tree :: more => by
    have htree := depth_toJson tree
    have hmore := depths_toJsons more
    simp only [toJsons, Json.depths, mostLevels]
    omega

end

/-- A tree is decoded within any number of levels that exceeds the depth, since each level enters
an object. -/
theorem decodes_decodeWithin {levels : Nat} (h : depth < levels) (tree : PinTree) :
    Decodes depth (decodeWithin levels) tree.toJson tree := by
  induction levels generalizing depth tree with
  | zero => omega
  | succ levels ih =>
      obtain ⟨pin, own, name, address, imports⟩ := tree
      rw [toJson, toJsons_eq_map]
      have hkeys : ["pin", "pin_self", "pin_contract_name", "pin_contract_address",
          "imports"].Nodup := by decide
      refine decodes_record hkeys fun inner hinner => ?_
      have himports : ∀ below < inner, ∀ tree ∈ imports,
          Decodes below (decodeWithin levels) tree.toJson tree :=
        fun below hbelow tree _ => ih (by omega) tree
      exact .required (decodes_string _) <| .required (decodes_string _) <|
        .required (decodes_string _) <| .required (decodes_string _) <|
        .defaulted ((decodes_list himports).orDefault nofun []) (.done _)

theorem decodes (tree : PinTree) : Decodes depth PinTree.decode tree.toJson tree :=
  decodes_decodeWithin (Nat.lt_succ_self depth) tree

end PinTree

namespace Listed

theorem Deployment.decodes (d : Deployment) : Decodes depth Deployment.decode d.toJson d := by
  rw [Deployment.toJson, ← List.append_nil (Json.optional "dependency_pin" _)]
  exact decodes_record (by decide) fun _ _ =>
    .required (decodes_string _) <| .required (decodes_string _) <|
    .defaulted (decodes_natural "u64" _) <|
    .optional (fun tree _ => ⟨tree.decodes, by cases tree; nofun⟩) rfl (.done d)

theorem Contract.decodes (c : Contract) : Decodes depth Contract.decode c.toJson c :=
  decodes_record (by decide) fun _ _ =>
    .required (decodes_string _) <|
    .defaulted ((decodes_list fun _ _ d _ => d.decodes).orDefault nofun []) (.done c)

theorem decodes_group (contracts : List Contract) :
    Decodes depth decodeGroup (groupToJson contracts) contracts :=
  decodes_record (by decide) fun _ _ =>
    .defaulted ((decodes_list fun _ _ c _ => c.decodes).orDefault nofun []) (.done contracts)

theorem Slot.decodes (slot : Slot) : Decodes depth Slot.decode slot.toJson slot :=
  decodes_record (by decide) fun _ _ =>
    .required (decodes_string _) <| .defaulted (decodes_natural "usize" _) <|
    .required (decodes_string _) <|
    .defaulted ((decodes_list fun _ _ m _ => m.decodes).orDefault nofun []) (.done slot)

theorem Code.decodes (c : Code) : Decodes depth Code.decode c.toJson c :=
  decodes_record (by decide) fun _ _ =>
    .required (decodes_string _) <|
    .defaulted ((decodes_list fun _ _ p _ => p.decodes).orDefault nofun []) (.done c)

theorem Contents.decodes (c : Contents) : Decodes depth Contents.decode c.toJson c := by
  rw [Contents.toJson, ← List.append_nil (Json.optional "output" _)]
  exact decodes_record (by decide) fun _ _ =>
    .required (decodes_string _) <| .defaulted (decodes_string _) <|
    .defaulted ((decodes_list fun _ _ m _ => m.decodes).orDefault nofun []) <|
    .required c.code.decodes <|
    .defaulted ((decodes_list fun _ _ group _ => decodes_group group).orDefault nofun []) <|
    .defaulted ((decodes_list fun _ _ slot _ => slot.decodes).orDefault nofun []) <|
    .optional (fun slot _ => ⟨slot.decodes, nofun⟩) rfl (.done c)

theorem Document.decodes (d : Document) : Decodes depth Document.decode d.toJson d :=
  decodes_record (by decide) fun _ _ =>
    .required (decodes_string _) <| .required (decodes_string _) <|
    .defaulted (decodes_string _) <| .required d.contents.decodes (.done d)

end Listed

end Interaction
