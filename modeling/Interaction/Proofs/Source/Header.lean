import Interaction.Proofs.Source.Rescan

/-!
# Headers

A header is a number of import declarations, each on a line of its own, in front of a text. Its
declarations are read one after another, and the text after it is read as it is read alone. So
substitution works through a header line by line, and if the lines it writes are declarations, it
makes a header of a header.
-/

namespace Interaction

namespace Source

open Source.Parser Lexeme

/-- Lines, each with its line feed, and a text after them. -/
def headed (lines : List String) (rest : String) : String :=
  lines.foldr (fun line text => line ++ "\n" ++ text) rest

/-- Bare declarations of the contracts of a declaration that spells out an address; any other
declaration as it is. -/
def Clause.unlocated : Clause → List Clause
  | .located names _ => names.map .bare
  | clause => [clause]

/-- The lines that substitution makes of a declaration. -/
def Clause.rewritten (replacement : Import → Option String) (clause : Clause) : List String :=
  if clause.isReplaced replacement then
    clause.imports.map fun i => (replacement i).getD i.text
  else [clause.text]

variable {clause : Clause} {clauses : List Clause} {replacement : Import → Option String}
  {rest : String}

theorem headed_cons (line : String) (lines : List String) (rest : String) :
    headed (line :: lines) rest = line ++ "\n" ++ headed lines rest :=
  rfl

theorem headed_append (lines more : List String) (rest : String) :
    headed (lines ++ more) rest = headed lines (headed more rest) :=
  List.foldr_append

/-- Lines that are joined by line feeds, with one more behind the last. -/
theorem intercalate_append_eq_headed {lines : List String} (hne : lines ≠ []) (rest : String) :
    "\n".intercalate lines ++ "\n" ++ rest = headed lines rest := by
  induction lines with
  | nil => exact absurd rfl hne
  | cons line more ih =>
      cases more with
      | nil =>
          rw [String.intercalate_singleton]
          rfl
      | cons next more =>
          rw [String.intercalate_cons_cons, headed_cons, ← ih nofun]
          simp only [String.append_assoc]

namespace Clause

theorem IsWritable.imports_ne_nil (h : clause.IsWritable) : clause.imports ≠ [] :=
  Clause.imports_ne_nil (Clause.parse_text h (stops_nil : Stops Char.isAlphanum []))

theorem IsWritable.isWord {i : Import} (h : clause.IsWritable) (hi : i ∈ clause.imports) :
    IsWord i.name.toList := by
  cases clause with
  | bare name =>
      rw [List.mem_singleton.1 hi]
      exact h
  | located names address =>
      obtain ⟨name, hname, rfl⟩ := List.mem_map.1 hi
      exact h.2.1 name hname
  | filed names file =>
      obtain ⟨name, hname, rfl⟩ := List.mem_map.1 hi
      exact h.2.1 name hname

theorem isWritable_unlocated (h : clause.IsWritable) :
    ∀ other ∈ clause.unlocated, other.IsWritable := by
  cases clause with
  | located names address =>
      intro other hother
      obtain ⟨name, hname, rfl⟩ := List.mem_map.1 hother
      exact h.2.1 name hname
  | _ => exact List.forall_mem_singleton.2 h

/-- The same contracts are imported, in the same order. -/
theorem names_unlocated (clause : Clause) :
    (clause.unlocated.flatMap imports).map Import.name = clause.imports.map Import.name := by
  cases clause with
  | located names address =>
      simp [unlocated, imports, List.flatMap_map, List.map_flatMap, Function.comp_def]
  | _ => simp [unlocated]

end Clause

/-! ### A declaration on a line of its own -/

theorem chunks_clause (h : clause.IsWritable) (rest : String) :
    chunks (clause.text ++ "\n" ++ rest).toList =
      ⟨clause.text.toList, .imports clause⟩ :: ⟨['\n'], .plain⟩ :: chunks rest.toList := by
  have hread : Item.parse (clause.text.toList ++ '\n' :: rest.toList) =
      some (.imports clause, '\n' :: rest.toList) :=
    Item.parse_of_clause (Clause.parse_text h (stops_cons (by decide) _))
  have hbreak : Item.parse (['\n'] ++ rest.toList) = some (.plain, rest.toList) :=
    Item.parse_of_blank (blank_of_isSpace (by decide) _)
  rw [String.toList_append, String.toList_append, List.append_assoc]
  change chunks (clause.text.toList ++ '\n' :: rest.toList) = _
  rw [chunks_append hread, ← chunks_append hbreak]
  rfl

theorem importsOf_clause (h : clause.IsWritable) (rest : String) :
    importsOf (clause.text ++ "\n" ++ rest) = clause.imports ++ importsOf rest := by
  rw [importsOf_eq, chunks_clause h, importsOf_eq]
  rfl

theorem substituteImports_clause (h : clause.IsWritable) (replacement : Import → Option String)
    (rest : String) : substituteImports replacement (clause.text ++ "\n" ++ rest) =
      headed (clause.rewritten replacement) (substituteImports replacement rest) := by
  have hbreak : Chunk.substituted replacement ⟨['\n'], .plain⟩ = ['\n'] := rfl
  have hchunks : substituteImports replacement (clause.text ++ "\n" ++ rest) =
      (if clause.isReplaced replacement then clause.lines replacement else clause.text) ++ "\n" ++
        substituteImports replacement rest := by
    rw [substituteImports_eq, chunks_clause h, List.flatMap_cons, List.flatMap_cons,
      Chunk.substituted_imports rfl, hbreak, substituteImports_eq]
    refine String.toList_inj.1 ?_
    split <;> simp
  rw [hchunks, Clause.rewritten]
  split
  · exact intercalate_append_eq_headed (mt List.map_eq_nil_iff.1 h.imports_ne_nil) _
  · rfl

/-! ### Headers -/

theorem importsOf_headed (h : ∀ clause ∈ clauses, clause.IsWritable) (rest : String) :
    importsOf (headed (clauses.map Clause.text) rest) =
      clauses.flatMap Clause.imports ++ importsOf rest := by
  induction clauses with
  | nil => rfl
  | cons clause more ih =>
      rw [List.map_cons, headed_cons, importsOf_clause (h clause (.head _)),
        ih fun other hother => h other (.tail _ hother), List.flatMap_cons, List.append_assoc]

theorem importsOf_headed_of_eq_nil (h : ∀ clause ∈ clauses, clause.IsWritable)
    (hrest : importsOf rest = []) :
    importsOf (headed (clauses.map Clause.text) rest) = clauses.flatMap Clause.imports := by
  rw [importsOf_headed h, hrest, List.append_nil]

/-- Substitution works through a header line by line. -/
theorem substituteImports_headed (h : ∀ clause ∈ clauses, clause.IsWritable)
    (replacement : Import → Option String) (rest : String) :
    substituteImports replacement (headed (clauses.map Clause.text) rest) =
      headed (clauses.flatMap (Clause.rewritten replacement))
        (substituteImports replacement rest) := by
  induction clauses with
  | nil => rfl
  | cons clause more ih =>
      rw [List.map_cons, headed_cons, substituteImports_clause (h clause (.head _)),
        ih fun other hother => h other (.tail _ hother), List.flatMap_cons, headed_append]

/-- Where nothing is imported, nothing is substituted. -/
theorem substituteImports_of_importsOf_eq_nil (h : importsOf rest = [])
    (replacement : Import → Option String) : substituteImports replacement rest = rest := by
  have hplain : ∀ chunk ∈ chunks rest.toList, chunk.item.isImport = false := by
    intro chunk hchunk
    rw [importsOf_eq, List.flatMap_eq_nil_iff] at h
    have hnone := h chunk hchunk
    by_contra hitem
    obtain ⟨clause, hclause⟩ := Item.exists_imports (eq_true_of_ne_false hitem)
    rw [Chunk.imports, hclause] at hnone
    obtain ⟨-, after, -, hread⟩ := (cut_chunks rest.toList).exists_parse hchunk
    rw [hclause] at hread
    exact Clause.imports_ne_nil (Clause.parse_of_item hread) hnone
  rw [substituteImports_eq, (substituted_of_plain replacement hplain).1, chunks_join,
    String.ofList_toList]

/-- If all imports of a header are replaced, the header becomes one line for each of them. -/
theorem substituteImports_headed_of_some {line : Import → String}
    (h : ∀ clause ∈ clauses, clause.IsWritable)
    (hline : ∀ i ∈ clauses.flatMap Clause.imports, replacement i = some (line i))
    (hrest : importsOf rest = []) :
    substituteImports replacement (headed (clauses.map Clause.text) rest) =
      headed ((clauses.flatMap Clause.imports).map line) rest := by
  rw [substituteImports_headed h, substituteImports_of_importsOf_eq_nil hrest, List.map_flatMap]
  congr 1
  refine List.flatMap_congr fun clause hclause => ?_
  have hall : ∀ i ∈ clause.imports, replacement i = some (line i) :=
    fun i hi => hline i (List.mem_flatMap.2 ⟨clause, hclause, hi⟩)
  have hreplaced : clause.isReplaced replacement = true := by
    obtain ⟨i, hi⟩ := List.exists_mem_of_ne_nil _ (h clause hclause).imports_ne_nil
    exact List.any_eq_true.2 ⟨i, hi, by rw [hall i hi, Option.isSome_some]⟩
  rw [Clause.rewritten, if_pos hreplaced]
  exact List.map_congr_left fun i hi => by rw [hall i hi, Option.getD_some]

end Source

end Interaction
