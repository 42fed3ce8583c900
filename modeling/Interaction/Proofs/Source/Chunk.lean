import Interaction.Proofs.Source.Item
import Interaction.Proofs.Text.Utf8

/-!
# Cutting a text into chunks

A text is cut from left to right, and each chunk is what is read from the text that is left. The
relation `Cut` says so without counting characters; a text has one cut, which is `chunks`.
The places of the chunks are counted in bytes from the start of the text.
-/

namespace Interaction

theorem Utf8.size_pos {cs : List Char} (h : cs ≠ []) : 0 < Utf8.size cs := by
  cases cs with
  | nil => exact absurd rfl h
  | cons c cs =>
      have hone : 0 < (encodeChar c).length := by
        unfold encodeChar
        dsimp only
        split <;> [skip; split <;> [skip; split]] <;> exact Nat.succ_pos _
      rw [size, encode_cons, List.length_append]
      exact Nat.add_pos_left hone _

namespace Source

open Source.Parser Lexeme

/-- A text and the chunks it is cut into: each is read from the text that is left. -/
inductive Cut : List Char → List Chunk → Prop
  | nil : Cut [] []
  | cons {chunk : Chunk} {rest : List Char} {more : List Chunk}
      (h : Item.parse (chunk.text ++ rest) = some (chunk.item, rest)) (hmore : Cut rest more) :
      Cut (chunk.text ++ rest) (chunk :: more)

variable {s text rest : List Char} {item : Item} {clause : Clause} {cs : List Chunk}

theorem ne_nil_of_parse (h : Item.parse (text ++ rest) = some (item, rest)) : text ≠ [] := by
  rintro rfl
  exact Nat.lt_irrefl _ (Item.advances_parse h).2

theorem itemAt_of_parse {c : Char} (h : Item.parse (c :: s) = some (item, rest)) :
    itemAt c s = (s.length - rest.length, item) := by
  simp only [itemAt, h]

/-- The first chunk of a text is the item at its front. -/
theorem chunks_append (h : Item.parse (text ++ rest) = some (item, rest)) :
    chunks (text ++ rest) = ⟨text, item⟩ :: chunks rest := by
  cases text with
  | nil => exact absurd rfl (ne_nil_of_parse h)
  | cons c text =>
      have hfound : itemAt c (text ++ rest) = (text.length, item) := by
        rw [List.cons_append] at h
        rw [itemAt_of_parse h, List.length_append, Nat.add_sub_cancel]
      rw [List.cons_append, chunks, hfound]
      simp only [List.take_left, List.drop_left]

theorem cut_chunks (s : List Char) : Cut s (chunks s) := by
  induction hn : s.length using Nat.strongRecOn generalizing s with
  | ind n ih =>
      cases s with
      | nil =>
          rw [chunks]
          exact .nil
      | cons c s =>
          obtain ⟨item, rest, h, text, rfl⟩ := Item.exists_parse_eq_some c s
          have hrest : Cut rest (chunks rest) := by
            refine ih rest.length ?_ rest rfl
            rw [← hn, List.length_cons, List.length_append]
            omega
          rw [← List.cons_append] at h ⊢
          rw [chunks_append h]
          exact @Cut.cons ⟨c :: text, item⟩ rest _ h hrest

/-- A text has only one cut. -/
theorem Cut.eq_chunks (h : Cut s cs) : cs = chunks s := by
  induction h with
  | nil => rw [chunks]
  | cons h _ ih => rw [chunks_append h, ih]

/-- Each chunk stands in the text and is read there. -/
theorem Cut.exists_parse (h : Cut s cs) {chunk : Chunk} (hchunk : chunk ∈ cs) :
    ∃ before after, s = before ++ (chunk.text ++ after) ∧
      Item.parse (chunk.text ++ after) = some (chunk.item, after) := by
  induction h with
  | nil => cases hchunk
  | @cons first rest more hread _ ih =>
      rcases List.mem_cons.1 hchunk with rfl | hchunk
      · exact ⟨[], rest, rfl, hread⟩
      · obtain ⟨before, after, rfl, hparse⟩ := ih hchunk
        exact ⟨first.text ++ before, after, (List.append_assoc _ _ _).symm, hparse⟩

/-- What was read where an item is found. -/
def Item.ReadBy (s rest : List Char) : Item → Prop
  | .block tags => Tag.block s = some (tags, rest)
  | .pragma fields => Source.pragma s = some (fields, rest)
  | .brokenPragma => exactly pragmaWord s = some ((), rest)
  | .imports clause => Clause.parse s = some (clause, rest)
  | .entry found => Entry.parse s = some (found, rest)
  | .plain => True

theorem readBy_of_stepOver {α : Type} {p : Parser α} (h : Item.stepOver p s = some (item, rest)) :
    item.ReadBy s rest := by
  obtain ⟨a, -, rfl⟩ := map_eq_some_iff.1 h
  trivial

/-- An item is found by the parser that reads it. -/
theorem Item.readBy_of_parse (h : Item.parse s = some (item, rest)) : item.ReadBy s rest := by
  have hmap {α : Type} {p : Parser α} {f : α → Item} (h : (f <$> p) s = some (item, rest))
      (hread : ∀ a, p s = some (a, rest) → (f a).ReadBy s rest) : item.ReadBy s rest := by
    obtain ⟨a, ha, rfl⟩ := map_eq_some_iff.1 h
    exact hread a ha
  rw [Item.parse] at h
  rcases orElse_eq_some_iff.1 h with h | ⟨-, h⟩
  · exact readBy_of_stepOver h
  rcases orElse_eq_some_iff.1 h with h | ⟨-, h⟩
  · exact hmap h fun _ ha => ha
  rcases orElse_eq_some_iff.1 h with h | ⟨-, h⟩
  · exact hmap h fun _ ha => ha
  rcases orElse_eq_some_iff.1 h with h | ⟨-, h⟩
  · exact hmap h fun _ ha => ha
  rcases orElse_eq_some_iff.1 h with h | ⟨-, h⟩
  · exact hmap h fun _ ha => ha
  rcases orElse_eq_some_iff.1 h with h | ⟨-, h⟩
  · exact readBy_of_stepOver h
  rcases orElse_eq_some_iff.1 h with h | ⟨-, h⟩
  · exact hmap h fun _ ha => ha
  rcases orElse_eq_some_iff.1 h with h | ⟨-, h⟩
  · exact readBy_of_stepOver h
  rcases orElse_eq_some_iff.1 h with h | ⟨-, h⟩
  · exact readBy_of_stepOver h
  · exact readBy_of_stepOver h

/-- Only an import declaration is read as one. -/
theorem Clause.parse_of_item (h : Item.parse s = some (.imports clause, rest)) :
    Clause.parse s = some (clause, rest) :=
  Item.readBy_of_parse h

end Source

end Interaction
