import Interaction.Proofs.Source.Answers
import Interaction.Proofs.Source.Declaration
import Interaction.Proofs.Source.Reading
import Interaction.Proofs.Source.Substitution

/-!
# Reading a text again

After import declarations have been written anew, is the text still cut where it was? Not in every
text: a quote that is not closed takes in what now stands on its line, and a digit behind a
declaration becomes part of the new address. A text is `Steady` if nothing of this kind stands
before its last declaration, and then what is read again is what was written.
-/

namespace Interaction

/-- An import at the address that its name has. -/
def Import.placed (address : String → String) (i : Import) : Import :=
  { i with address := some (address i.name) }

namespace Source

open Source.Parser Lexeme

variable {s x rest rest' : List Char} {c : Char} {item : Item} {clause : Clause}
  {clauses : List Clause} {chunk : Chunk} {cs ds : List Chunk}

/-- The imports of a chunk, which only a declaration has. -/
def Item.imported : Item → List Import
  | .imports clause => clause.imports
  | _ => []

def Chunk.imports (chunk : Chunk) : List Import :=
  chunk.item.imported

/-- The declaration that a chunk is. -/
def Chunk.clause? (chunk : Chunk) : Option Clause :=
  match chunk.item with
  | .imports clause => some clause
  | _ => none

/-- Whether an item is an import declaration. -/
def Item.isImport : Item → Bool
  | .imports _ => true
  | _ => false

/-- The characters and words that may become part of something else with what follows them. -/
def loose : List (List Char) :=
  ['"', '/', '.', '#'].map List.singleton ++ Item.openers.map String.toList

/-- Whether a chunk is cut off where it is whatever the declarations after it are replaced by. The
text after it is needed for a declaration, behind which an address must end. -/
def Chunk.Settled (chunk : Chunk) (after : List Char) : Prop :=
  match chunk.item with
  | .imports _ => Stops Char.isAlphanum after
  | .block _ => True
  | .pragma _ => NoEmptyComment chunk.text
  | .plain => NoEmptyComment chunk.text ∧ chunk.text ∉ loose
  | .brokenPragma | .entry _ => False

instance (chunk : Chunk) (after : List Char) : Decidable (chunk.Settled after) :=
  match chunk with
  | ⟨_, .imports _⟩ => inferInstanceAs (Decidable (Stops _ _))
  | ⟨_, .block _⟩ => isTrue trivial
  | ⟨text, .pragma _⟩ => inferInstanceAs (Decidable (NoEmptyComment text))
  | ⟨text, .plain⟩ => inferInstanceAs (Decidable (NoEmptyComment text ∧ text ∉ loose))
  | ⟨_, .brokenPragma⟩ => isFalse id
  | ⟨_, .entry _⟩ => isFalse id

/-- Whether all chunks up to the last declaration are settled. -/
def Steady : List Chunk → Prop
  | [] => True
  | chunk :: more =>
    (∀ c ∈ chunk :: more, c.item.isImport = false) ∨
      chunk.Settled (more.flatMap Chunk.text) ∧ Steady more

def Steady.decide : (cs : List Chunk) → Decidable (Steady cs)
  | [] => isTrue trivial
  | chunk :: more =>
    have := Steady.decide more
    inferInstanceAs (Decidable ((∀ c ∈ chunk :: more, c.item.isImport = false) ∨
      chunk.Settled (more.flatMap Chunk.text) ∧ Steady more))

instance : DecidablePred Steady :=
  Steady.decide

theorem Item.ne_imports (h : item.isImport = false) (clause : Clause) : item ≠ .imports clause := by
  rintro rfl
  cases h

theorem Item.imported_of_not_import (h : item.isImport = false) : item.imported = [] := by
  cases item with
  | imports clause => cases h
  | _ => rfl

theorem Item.exists_imports (h : item.isImport = true) : ∃ clause, item = .imports clause := by
  cases item with
  | imports clause => exact ⟨clause, rfl⟩
  | _ => cases h

theorem Chunk.clause?_of_not_import (h : chunk.item.isImport = false) : chunk.clause? = none := by
  rw [clause?]
  split
  next clause hitem => exact absurd hitem (Item.ne_imports h clause)
  next => rfl

theorem Chunk.clause?_imports (h : chunk.item = .imports clause) : chunk.clause? = some clause := by
  rw [clause?, h]

theorem map_value_declarations (source : String) :
    (declarations source).map Located.value = (chunks source.toList).filterMap Chunk.clause? := by
  rw [declarations_eq]
  generalize chunks source.toList = cs
  generalize 1 = line, 0 = start
  induction cs generalizing line start with
  | nil => rfl
  | cons chunk more ih =>
      rw [List.filterMap_cons]
      cases hitem : chunk.item.isImport with
      | true =>
          obtain ⟨clause, hclause⟩ := Item.exists_imports hitem
          rw [declared_imports hclause, List.map_cons, ih, Chunk.clause?_imports hclause]
      | false =>
          rw [declared_of_ne (Item.ne_imports hitem), ih, Chunk.clause?_of_not_import hitem]

theorem flatMap_imports (cs : List Chunk) :
    cs.flatMap Chunk.imports = (cs.filterMap Chunk.clause?).flatMap Clause.imports := by
  rw [List.filterMap_eq_flatMap_toList, List.flatMap_assoc]
  refine List.flatMap_congr fun chunk _ => ?_
  rw [Chunk.imports]
  cases hitem : chunk.item.isImport with
  | true =>
      obtain ⟨clause, hclause⟩ := Item.exists_imports hitem
      rw [hclause, Chunk.clause?_imports hclause, Item.imported]
      simp
  | false =>
      rw [Item.imported_of_not_import hitem, Chunk.clause?_of_not_import hitem]
      rfl

theorem importsOf_eq (source : String) :
    importsOf source = (chunks source.toList).flatMap Chunk.imports := by
  rw [flatMap_imports, ← map_value_declarations, List.flatMap_map, importsOf]

/-! ### What is settled is read again -/

theorem member_append (hx : NoEmptyComment x) (h : Item.member (x ++ rest) = some ((), rest))
    (hhead : rest'.head? = rest.head?) : Item.member (x ++ rest') = some ((), rest') := by
  have hword : Advances (do let _ ← word : Parser Unit) := .bind advances_word fun _ => .pure _
  have hstart : Starts Solid (do let _ ← word : Parser Unit) :=
    (Starts.word.mono fun _ => solid_of_isWordStart).bind
  obtain ⟨⟨⟩, y, z, rfl, hdot, h⟩ := split_of_bind (Consumes.exactly _)
    (fun _ => .bind consumes_skip fun _ => hword.consumes) h
  have hy := exactly_eq_some_iff.1 hdot
  rw [List.append_cancel_right_eq] at hy
  have hafter := skip_bind_append hword hstart hx.right h fun v _ hread => by
    obtain ⟨w, _, hw, he⟩ := bind_eq_some_iff.1 hread
    cases he
    exact bind_eq_some_iff.2 ⟨w, _, word_append hw hhead, rfl⟩
  rw [List.append_assoc, hy]
  exact bind_eq_some_iff.2 ⟨(), _, exactly_append _ _, hafter⟩

/-- A chunk that is settled and no declaration is read again, unless the character after it
changes. -/
theorem exists_parse_of_settled (hread : Item.parse (x ++ rest) = some (item, rest))
    (hitem : item.isImport = false) (hsettled : Chunk.Settled ⟨x, item⟩ rest)
    (hhead : rest'.head? = rest.head?) :
    ∃ item', item'.isImport = false ∧ Item.parse (x ++ rest') = some (item', rest') := by
  rw [Item.parse] at hread
  rcases orElse_eq_some_iff.1 hread with h | ⟨hblank, hread⟩
  · obtain ⟨⟨⟩, hfound, rfl⟩ := map_eq_some_iff.1 h
    exact ⟨.plain, rfl, Item.parse_of_blank (blank_append hsettled.1 hfound hhead)⟩
  rcases orElse_eq_some_iff.1 hread with h | ⟨-, hread⟩
  · obtain ⟨tags, hfound, rfl⟩ := map_eq_some_iff.1 h
    obtain ⟨tags', hfound'⟩ := Tag.block_append hfound rest'
    exact ⟨.block tags', rfl, Item.parse_of_block hfound'⟩
  rcases orElse_eq_some_iff.1 hread with h | ⟨-, hread⟩
  · obtain ⟨fields, hfound, rfl⟩ := map_eq_some_iff.1 h
    obtain ⟨fields', hfound'⟩ := pragma_append hsettled hfound rest'
    exact ⟨.pragma fields', rfl, Item.parse_of_pragma hfound'⟩
  rcases orElse_eq_some_iff.1 hread with h | ⟨-, hread⟩
  · obtain ⟨⟨⟩, -, rfl⟩ := map_eq_some_iff.1 h
    exact hsettled.elim
  rcases orElse_eq_some_iff.1 hread with h | ⟨-, hread⟩
  · obtain ⟨clause, -, rfl⟩ := map_eq_some_iff.1 h
    cases hitem
  rcases orElse_eq_some_iff.1 hread with h | ⟨-, hread⟩
  · obtain ⟨⟨⟩, hfound, rfl⟩ := map_eq_some_iff.1 h
    exact ⟨.plain, rfl, Item.parse_of_member (member_append hsettled.1 hfound hhead)⟩
  rcases orElse_eq_some_iff.1 hread with h | ⟨-, hread⟩
  · obtain ⟨entry, -, rfl⟩ := map_eq_some_iff.1 h
    exact hsettled.elim
  rcases orElse_eq_some_iff.1 hread with h | ⟨-, hread⟩
  · obtain ⟨value, hfound, rfl⟩ := map_eq_some_iff.1 h
    exact ⟨.plain, rfl, Item.parse_of_stringLiteral (stringLiteral_append hfound rest')⟩
  rcases orElse_eq_some_iff.1 hread with h | ⟨hword, hread⟩
  · obtain ⟨w, hfound, rfl⟩ := map_eq_some_iff.1 h
    obtain ⟨-, hx, -⟩ := word_eq_some_iff.1 hfound
    rw [List.append_cancel_right_eq] at hx
    have hw : w ∉ Item.openers := fun hmem =>
      hsettled.2 (List.mem_append_right _ (hx ▸ List.mem_map_of_mem hmem))
    exact ⟨.plain, rfl, Item.parse_of_word (word_append hfound hhead) hw⟩
  · obtain ⟨c, hfound, rfl⟩ := map_eq_some_iff.1 hread
    have hx := (one_eq_some_iff.1 hfound).1
    rw [← List.singleton_append, List.append_cancel_right_eq] at hx
    subst hx
    have hne {k : Char} (hk : [k] ∈ loose) : c ≠ k := by
      rintro rfl
      exact hsettled.2 hk
    have hspace : isSpace c = false := by
      by_contra hc
      have hfound := blank_of_isSpace (eq_true_of_ne_false hc) rest
      rw [List.singleton_append, Item.stepOver_of_some hfound] at hblank
      cases hblank
    have hstart : isWordStart c = false := by
      by_contra hc
      obtain ⟨w, after, hfound⟩ := exists_word (eq_true_of_ne_false hc) rest
      rw [List.singleton_append, Item.stepOver_of_some hfound] at hword
      cases hword
    exact ⟨.plain, rfl, Item.parse_of_other ⟨hspace, hne (by decide)⟩
      ⟨hne (by decide), hne (by decide), hne (by decide)⟩ hstart rest'⟩

/-! ### What is written is read -/

theorem Clause.text_located_singleton (name address : String) :
    (Clause.located [name] address).text = Import.explicitText name address := by
  rw [text, String.intercalate_singleton, Import.explicitText]

/-- A declaration names a contract. -/
theorem Clause.imports_ne_nil (h : Clause.parse s = some (clause, rest)) : clause.imports ≠ [] := by
  have hnames := Clause.answers_parse h
  cases clause with
  | bare name => nofun
  | located names address => exact fun hnil => hnames.1 (List.map_eq_nil_iff.1 hnil)
  | filed names file => exact fun hnil => hnames.1 (List.map_eq_nil_iff.1 hnil)

theorem Clause.head?_of_parse (h : Clause.parse (x ++ rest) = some (clause, rest)) :
    x.head? = some 'i' := by
  have hne : x ≠ [] := by
    rintro rfl
    exact Nat.lt_irrefl _ (Clause.advances_parse h).2
  obtain ⟨⟨⟩, mid, hkeyword, -⟩ := bind_eq_some_iff.1 h
  rw [← List.head?_append_of_ne_nil x hne, (keyword_eq_some_iff.1 hkeyword).1]
  rfl

theorem Cut.exists_clause (h : Cut s cs) (hmem : chunk ∈ cs) (hitem : chunk.item = .imports clause) :
    ∃ after, Clause.parse (chunk.text ++ after) = some (clause, after) := by
  obtain ⟨-, after, -, hread⟩ := h.exists_parse hmem
  rw [hitem] at hread
  exact ⟨after, Clause.parse_of_item hread⟩

/-- Declarations as they are written, one to a line. -/
def written (clauses : List Clause) : List Char :=
  ("\n".intercalate (clauses.map Clause.text)).toList

theorem written_singleton (clause : Clause) : written [clause] = clause.text.toList := by
  rw [written, List.map_singleton, String.intercalate_singleton]

theorem written_cons_cons (clause next : Clause) (more : List Clause) :
    written (clause :: next :: more) = clause.text.toList ++ '\n' :: written (next :: more) := by
  rw [written, List.map_cons, List.map_cons, String.intercalate_cons_cons, String.toList_append,
    String.toList_append, List.append_assoc]
  rfl

theorem head?_written (hne : clauses ≠ []) : (written clauses).head? = some 'i' := by
  have htext (clause : Clause) (s : List Char) : (clause.text.toList ++ s).head? = some 'i' := by
    cases clause <;> simp [Clause.text, Import.bareText]
  cases clauses with
  | nil => exact absurd rfl hne
  | cons clause more =>
      cases more with
      | nil => rw [written_singleton, ← List.append_nil clause.text.toList, htext]
      | cons next more => rw [written_cons_cons, htext]

/-- Declarations that are written line by line are read as such, if the last of them is. -/
theorem exists_cut_written (hne : clauses ≠ []) (hwritable : ∀ clause ∈ clauses, clause.IsWritable)
    (hlast : ∀ clause ∈ clauses, Clause.parse (clause.text.toList ++ rest) = some (clause, rest))
    (hrest : Cut rest ds) :
    ∃ es, Cut (written clauses ++ rest) es ∧
      es.filterMap Chunk.clause? = clauses ++ ds.filterMap Chunk.clause? := by
  induction clauses with
  | nil => exact absurd rfl hne
  | cons clause more ih =>
      cases more with
      | nil =>
          have hread := Item.parse_of_clause (hlast clause (.head _))
          rw [written_singleton]
          exact ⟨_, @Cut.cons ⟨_, _⟩ _ _ hread hrest, rfl⟩
      | cons next more =>
          obtain ⟨es, hes, hclauses⟩ := ih nofun (fun other h => hwritable other (.tail _ h))
            fun other h => hlast other (.tail _ h)
          have hbreak : Cut ('\n' :: (written (next :: more) ++ rest)) (⟨['\n'], .plain⟩ :: es) :=
            @Cut.cons ⟨['\n'], .plain⟩ _ es
              (Item.parse_of_blank (blank_of_isSpace (by decide) _)) hes
          have hread : Item.parse (clause.text.toList ++ '\n' :: (written (next :: more) ++ rest)) =
              some (.imports clause, '\n' :: (written (next :: more) ++ rest)) :=
            Item.parse_of_clause
              (Clause.parse_text (hwritable clause (.head _)) (stops_cons (by decide) _))
          rw [written_cons_cons, List.append_assoc]
          refine ⟨_, @Cut.cons ⟨_, _⟩ _ _ hread hbreak, ?_⟩
          rw [List.filterMap_cons, List.filterMap_cons, hclauses]
          rfl

/-- Substitution leaves the first character as it is if no chunk starts with another one. -/
theorem head?_flatMap_substituted {replacement : Import → Option String} (h : Cut s cs)
    (hsame : ∀ chunk ∈ cs, (chunk.substituted replacement).head? = chunk.text.head?) :
    (cs.flatMap (Chunk.substituted replacement)).head? = s.head? := by
  cases h with
  | nil => rfl
  | @cons chunk rest more hread hmore =>
      have hne := ne_nil_of_parse hread
      rw [List.flatMap_cons, List.head?_append, hsame chunk (.head _),
        List.head?_append_of_ne_nil _ hne]
      obtain ⟨c, v, heq⟩ := List.exists_cons_of_ne_nil hne
      rw [heq]
      rfl

section Placed

variable {address : String → String} {replacement : Import → Option String} {l : List Import}

/-- A list of imports at their addresses, one to a line. -/
def placedLines (address : String → String) (l : List Import) : List Char :=
  ("\n".intercalate (l.map fun i => (i.placed address).text)).toList

theorem placedLines_eq_written (address : String → String) (l : List Import) :
    placedLines address l = written (l.map fun i => .located [i.name] (address i.name)) := by
  rw [placedLines, written, List.map_map]
  exact congrArg (fun lines => ("\n".intercalate lines).toList) (List.map_congr_left fun i _ =>
    (Clause.text_located_singleton i.name (address i.name)).symm)

/-- Names and addresses that can be written out and read. -/
def Legible (address : String → String) (i : Import) : Prop :=
  IsWord i.name.toList ∧ IsAddress (address i.name).toList

/-- Imports that are written line by line are read as such. -/
theorem exists_cut_placedLines (hl : l ≠ []) (hall : ∀ i ∈ l, Legible address i)
    (hstop : Stops Char.isAlphanum rest) (hrest : Cut rest ds) :
    ∃ es, Cut (placedLines address l ++ rest) es ∧
      es.flatMap Chunk.imports = l.map (Import.placed address) ++ ds.flatMap Chunk.imports := by
  have hwritable : ∀ clause ∈ l.map (fun i => Clause.located [i.name] (address i.name)),
      clause.IsWritable := List.forall_mem_map.2 fun i hi =>
    ⟨List.cons_ne_nil _ _, List.forall_mem_singleton.2 (hall i hi).1, (hall i hi).2⟩
  obtain ⟨es, hes, hclauses⟩ := exists_cut_written (mt List.map_eq_nil_iff.1 hl) hwritable
    (fun clause hclause => Clause.parse_text (hwritable clause hclause) hstop) hrest
  refine ⟨es, ?_, ?_⟩
  · rwa [placedLines_eq_written]
  · rw [flatMap_imports, hclauses, List.flatMap_append, ← flatMap_imports, List.flatMap_map,
      List.map_eq_flatMap]
    rfl

/-- What every import of some chunks must be for them to be read again. -/
def Rewritten (replacement : Import → Option String) (address : String → String)
    (l : List Import) : Prop :=
  ∀ i ∈ l, replacement i = some (i.placed address).text ∧ Legible address i

theorem Chunk.substituted_eq_placedLines (hitem : chunk.item = .imports clause)
    (hne : clause.imports ≠ []) (hall : Rewritten replacement address clause.imports) :
    chunk.substituted replacement = placedLines address clause.imports := by
  have hreplaced : clause.isReplaced replacement = true := by
    obtain ⟨i, hi⟩ := List.exists_mem_of_ne_nil _ hne
    exact List.any_eq_true.2 ⟨i, hi, by rw [(hall i hi).1, Option.isSome_some]⟩
  have hlines : clause.lines replacement =
      "\n".intercalate (clause.imports.map fun i => (i.placed address).text) := by
    rw [Clause.lines]
    congr 1
    refine List.map_congr_left fun i hi => ?_
    rw [(hall i hi).1, Option.getD_some]
  rw [Chunk.substituted_imports hitem, if_pos hreplaced, hlines, placedLines]

theorem Rewritten.of_mem (hall : Rewritten replacement address (cs.flatMap Chunk.imports))
    (hmem : chunk ∈ cs) (hitem : chunk.item = .imports clause) :
    Rewritten replacement address clause.imports := by
  intro i hi
  refine hall i (List.mem_flatMap.2 ⟨chunk, hmem, ?_⟩)
  rwa [Chunk.imports, hitem]

/-- Substitution leaves the first character as it is. -/
theorem head?_substituted (h : Cut s cs)
    (hall : Rewritten replacement address (cs.flatMap Chunk.imports)) :
    (cs.flatMap (Chunk.substituted replacement)).head? = s.head? := by
  refine head?_flatMap_substituted h fun chunk hmem => ?_
  cases hitem : chunk.item.isImport with
  | false => rw [Chunk.substituted_of_ne (Item.ne_imports hitem)]
  | true =>
      obtain ⟨clause, hclause⟩ := Item.exists_imports hitem
      obtain ⟨after, hparse⟩ := h.exists_clause hmem hclause
      have hne := Clause.imports_ne_nil hparse
      rw [Chunk.substituted_eq_placedLines hclause hne (hall.of_mem hmem hclause),
        placedLines_eq_written, head?_written (mt List.map_eq_nil_iff.1 hne),
        Clause.head?_of_parse hparse]

theorem Cut.join (h : Cut s cs) : cs.flatMap Chunk.text = s := by
  rw [h.eq_chunks, chunks_join]

/-- Where there is no declaration, nothing is substituted. -/
theorem substituted_of_plain (replacement : Import → Option String)
    (h : ∀ chunk ∈ cs, chunk.item.isImport = false) :
    cs.flatMap (Chunk.substituted replacement) = cs.flatMap Chunk.text ∧
      cs.flatMap Chunk.imports = [] := by
  constructor
  · exact List.flatMap_congr fun chunk hmem =>
      Chunk.substituted_of_ne (Item.ne_imports (h chunk hmem))
  · exact List.flatMap_eq_nil_iff.2 fun chunk hmem => Item.imported_of_not_import (h chunk hmem)

/-- A steady text whose imports are all rewritten is cut into the same declarations, with their
imports placed. -/
theorem exists_cut_substituted (h : Cut s cs) (hsteady : Steady cs)
    (hall : Rewritten replacement address (cs.flatMap Chunk.imports)) :
    ∃ ds, Cut (cs.flatMap (Chunk.substituted replacement)) ds ∧
      ds.flatMap Chunk.imports = (cs.flatMap Chunk.imports).map (Import.placed address) := by
  induction h with
  | nil => exact ⟨[], .nil, rfl⟩
  | @cons chunk rest more hread hmore ih =>
      rcases hsteady with hplain | ⟨hsettled, hsteady⟩
      · have hcut := Cut.cons hread hmore
        obtain ⟨hsame, hnone⟩ := substituted_of_plain replacement hplain
        rw [hsame, hcut.join, hnone]
        exact ⟨_, hcut, hnone⟩
      · have hallMore : Rewritten replacement address (more.flatMap Chunk.imports) := by
          intro i hi
          refine hall i ?_
          rw [List.flatMap_cons]
          exact List.mem_append_right _ hi
        obtain ⟨ds, hds, himports⟩ := ih hsteady hallMore
        have hhead := head?_substituted hmore hallMore
        rw [List.flatMap_cons, List.flatMap_cons]
        cases hitem : chunk.item.isImport with
        | false =>
            rw [hmore.join] at hsettled
            obtain ⟨item, hother, hread'⟩ := exists_parse_of_settled hread hitem hsettled hhead
            refine ⟨⟨chunk.text, item⟩ :: ds, ?_, ?_⟩
            · rw [Chunk.substituted_of_ne (Item.ne_imports hitem)]
              exact @Cut.cons ⟨chunk.text, item⟩ _ ds hread' hds
            · rw [List.flatMap_cons, himports, Chunk.imports, Chunk.imports,
                Item.imported_of_not_import hother, Item.imported_of_not_import hitem]
              rfl
        | true =>
            obtain ⟨clause, hclause⟩ := Item.exists_imports hitem
            rw [hclause] at hread
            have hne := Clause.imports_ne_nil (Clause.parse_of_item hread)
            have hrewritten := hall.of_mem (.head _) hclause
            have hstop : Stops Char.isAlphanum (more.flatMap (Chunk.substituted replacement)) := by
              rw [Chunk.Settled, hclause, hmore.join] at hsettled
              exact hsettled.of_head? hhead
            obtain ⟨es, hes, hlines⟩ :=
              exists_cut_placedLines hne (fun i hi => (hrewritten i hi).2) hstop hds
            refine ⟨es, ?_, ?_⟩
            · rwa [Chunk.substituted_eq_placedLines hclause hne hrewritten]
            · rw [hlines, himports, List.map_append, Chunk.imports, hclause, Item.imported]

/-- Of a steady text whose imports are all rewritten, the same imports are read again, each at its
address. -/
theorem importsOf_substituteImports {source : String} (hsteady : Steady (chunks source.toList))
    (hall : Rewritten replacement address (importsOf source)) :
    importsOf (substituteImports replacement source) =
      (importsOf source).map (Import.placed address) := by
  rw [importsOf_eq source] at hall ⊢
  obtain ⟨ds, hds, himports⟩ := exists_cut_substituted (cut_chunks _) hsteady hall
  rw [importsOf_eq, substituteImports_eq, String.toList_ofList, ← hds.eq_chunks, himports]

end Placed

end Source

end Interaction
