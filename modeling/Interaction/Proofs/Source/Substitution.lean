import Interaction.Proofs.Source.Chunk
import Interaction.Source.Substitution

/-!
# Substitution changes nothing but declarations

The import declarations of a text stand in it one after another, each on a span of its bytes, and
substitution cuts these spans out and puts other bytes in their place. `splice` does that with bytes
and spans alone and knows nothing of chunks; `substituteImports_eq_splice` says that substitution
comes to the same, for every text and every choice of replacements.
-/

namespace Interaction

namespace Source

open Source.Parser Lexeme

/-- The bytes from a place on, with other bytes in the place of some spans. -/
def splice (bytes : List UInt8) (place : Nat) : List (Located (List UInt8)) → List UInt8
  | [] => bytes.drop place
  | edit :: more =>
    (bytes.take edit.start).drop place ++ edit.value ++ splice bytes edit.stop more

/-- The text that takes the place of a declaration, if it changes, where no record is kept. -/
def Clause.replaced? (replacement : Import → Option String) (clause : Clause) : Option String :=
  replacedLines? (clause.imports.map fun i => (i, replacement i))

def Chunk.substituted (replacement : Import → Option String) (chunk : Chunk) : List Char :=
  match chunk.item with
  | .imports clause => ((clause.replaced? replacement).map String.toList).getD chunk.text
  | _ => chunk.text

/-- The texts of the imports of a declaration, one to a line. -/
def Clause.lines (replacement : Import → Option String) (clause : Clause) : String :=
  "\n".intercalate (clause.imports.map fun i => (replacement i).getD i.text)

/-- Whether some import of a declaration has a replacement. -/
def Clause.isReplaced (replacement : Import → Option String) (clause : Clause) : Bool :=
  clause.imports.any fun i => (replacement i).isSome

/-- The spans of the declarations that have a replacement, with the bytes that go there. -/
def edits (replacement : Import → Option String) (found : List (Located Clause)) :
    List (Located (List UInt8)) :=
  (found.filter fun d => d.value.isReplaced replacement).map fun d =>
    { d with value := Utf8.ofText (d.value.lines replacement) }

/-- A declaration that stands in a text where its place says, and is read there. -/
def Placed (source : List Char) (start : Nat) (found : Located Clause) : Prop :=
  ∃ before text after, source = before ++ (text ++ after) ∧
    found.start = start + Utf8.size before ∧ found.stop = found.start + Utf8.size text ∧
    Clause.parse (text ++ after) = some (found.value, after)

/-- Declarations among located items. -/
def declared (found : List (Located Item)) : List (Located Clause) :=
  found.filterMap fun found =>
    match found.value with
    | .imports clause => some { found with value := clause }
    | _ => none

theorem declarations_eq (source : String) :
    declarations source = declared (locateFrom 1 0 (chunks source.toList)) :=
  rfl

variable {s text rest : List Char} {cs : List Chunk} {replacement : Import → Option String}
  {clause : Clause} {chunk : Chunk}

theorem Clause.replaceM_pure (replacement : Import → Option String) (clause : Clause) :
    clause.replaceM (fun i => (pure (replacement i) : Id (Option String))) =
      pure (clause.replaced? replacement) := by
  simp only [replaceM, pure_bind, List.mapM_pure]
  rfl

theorem Chunk.substituteM_pure (replacement : Import → Option String) (chunk : Chunk) :
    chunk.substituteM (fun i => (pure (replacement i) : Id (Option String))) =
      pure (chunk.substituted replacement) := by
  rw [substituteM, substituted]
  cases chunk.item with
  | imports clause =>
      simp only [Clause.replaceM_pure, pure_bind]
  | _ => rfl

/-- Without a record, each chunk is substituted by itself. -/
theorem substituteImports_eq (replacement : Import → Option String) (source : String) :
    substituteImports replacement source =
      String.ofList ((chunks source.toList).flatMap (Chunk.substituted replacement)) := by
  have hchunks : Chunk.substituteM (fun i => (pure (replacement i) : Id (Option String))) =
      fun chunk => pure (chunk.substituted replacement) :=
    funext (Chunk.substituteM_pure replacement)
  simp only [substituteImports, substituteImportsM, hchunks, List.mapM_pure, pure_bind, Id.run_pure,
    List.flatMap]

theorem Clause.replaced?_eq (replacement : Import → Option String) (clause : Clause) :
    clause.replaced? replacement =
      if clause.isReplaced replacement then some (clause.lines replacement) else none := by
  have hall : ((clause.imports.map fun i => (i, replacement i)).all fun entry =>
      entry.2.isNone) = !clause.isReplaced replacement := by
    rw [List.all_map, isReplaced, List.not_any_eq_all_not]
    congr 1
    funext i
    exact (Option.not_isSome _).symm
  have hlines : (clause.imports.map fun i => (i, replacement i)).map
      (fun entry => entry.2.getD entry.1.text) =
        clause.imports.map fun i => (replacement i).getD i.text := List.map_map
  rw [replaced?, replacedLines?, hall, hlines, lines]
  cases clause.isReplaced replacement <;> rfl

/-- A chunk that is no declaration stays as it is. -/
theorem Chunk.substituted_of_ne (h : ∀ clause, chunk.item ≠ .imports clause) :
    chunk.substituted replacement = chunk.text := by
  rw [Chunk.substituted]
  split
  next clause hitem => exact absurd hitem (h clause)
  next => rfl

theorem Chunk.substituted_imports (h : chunk.item = .imports clause) :
    chunk.substituted replacement =
      if clause.isReplaced replacement then (clause.lines replacement).toList else chunk.text := by
  rw [Chunk.substituted, h]
  simp only [Clause.replaced?_eq]
  cases clause.isReplaced replacement <;> rfl

theorem declared_imports {line start : Nat} (h : chunk.item = .imports clause) :
    declared (locateFrom line start (chunk :: cs)) =
      ⟨line, start, start + Utf8.size chunk.text, clause⟩ ::
        declared (locateFrom (line + chunk.text.count '\n') (start + Utf8.size chunk.text) cs) := by
  rw [locateFrom, h]
  rfl

theorem declared_of_ne {line start : Nat} (h : ∀ clause, chunk.item ≠ .imports clause) :
    declared (locateFrom line start (chunk :: cs)) =
      declared (locateFrom (line + chunk.text.count '\n') (start + Utf8.size chunk.text) cs) := by
  rw [locateFrom, declared, List.filterMap_cons]
  split
  next => rfl
  next found hfound =>
    split at hfound
    next clause hitem => exact absurd hitem (h clause)
    next => cases hfound

/-- The span of a declaration holds at least one byte. -/
theorem Placed.start_lt_stop {start : Nat} {found : Located Clause} (h : Placed s start found) :
    found.start < found.stop := by
  obtain ⟨before, text, after, -, -, hstop, hparse⟩ := h
  have hne : text ≠ [] := by
    rintro rfl
    exact Nat.lt_irrefl _ (Clause.advances_parse hparse).2
  have hpos := Utf8.size_pos hne
  omega

theorem Placed.stop_le {start : Nat} {found : Located Clause} (h : Placed s start found) :
    found.stop ≤ start + Utf8.size s := by
  obtain ⟨before, text, after, rfl, hstart, hstop, -⟩ := h
  rw [Utf8.size_append, Utf8.size_append]
  omega

/-- What stands in the end of a text stands in the text. -/
theorem Placed.append {start : Nat} {found : Located Clause}
    (h : Placed rest (start + Utf8.size text) found) : Placed (text ++ rest) start found := by
  obtain ⟨before, inner, after, rfl, hstart, hstop, hparse⟩ := h
  refine ⟨text ++ before, inner, after, (List.append_assoc _ _ _).symm, ?_, hstop, hparse⟩
  rw [hstart, Utf8.size_append, Nat.add_assoc]

/-- The declarations of a text stand where their places say. -/
theorem placed_of_cut (h : Cut s cs) (line start : Nat) :
    ∀ found ∈ declared (locateFrom line start cs), Placed s start found := by
  induction h generalizing line start with
  | nil => nofun
  | @cons chunk rest more hread _ ih =>
      intro found hfound
      by_cases hitem : ∃ clause, chunk.item = .imports clause
      · obtain ⟨clause, hitem⟩ := hitem
        rw [declared_imports hitem] at hfound
        rcases List.mem_cons.1 hfound with rfl | hmore
        · rw [hitem] at hread
          exact ⟨[], chunk.text, rest, rfl, rfl, rfl, Clause.parse_of_item hread⟩
        · exact (ih _ _ found hmore).append
      · rw [declared_of_ne (not_exists.1 hitem)] at hfound
        exact (ih _ _ found hfound).append

theorem Placed.start_le {start : Nat} {found : Located Clause} (h : Placed s start found) :
    start ≤ found.start := by
  obtain ⟨before, text, after, -, hstart, -⟩ := h
  omega

/-- A declaration ends before the next one starts. -/
theorem pairwise_declared (h : Cut s cs) (line start : Nat) :
    (declared (locateFrom line start cs)).Pairwise fun a b => a.stop ≤ b.start := by
  induction h generalizing line start with
  | nil => exact .nil
  | @cons chunk rest more hread hmore ih =>
      by_cases hitem : ∃ clause, chunk.item = .imports clause
      · obtain ⟨clause, hitem⟩ := hitem
        rw [declared_imports hitem, List.pairwise_cons]
        exact ⟨fun found hfound => (placed_of_cut hmore _ _ found hfound).start_le, ih _ _⟩
      · rw [declared_of_ne (not_exists.1 hitem)]
        exact ih _ _

theorem edits_cons (found : Located Clause) (more : List (Located Clause)) :
    edits replacement (found :: more) =
      if found.value.isReplaced replacement then
        { found with value := Utf8.ofText (found.value.lines replacement) } ::
          edits replacement more
      else edits replacement more := by
  rw [edits, List.filter_cons]
  split <;> rfl

/-- Splicing goes through the chunks: what lies between the place and the chunks is kept, and each
chunk is substituted. -/
theorem splice_of_cut (h : Cut s cs) (line : Nat) (before : List UInt8) {place : Nat}
    (hplace : place ≤ before.length) :
    splice (before ++ Utf8.encode s) place
        (edits replacement (declared (locateFrom line before.length cs))) =
      before.drop place ++ Utf8.encode (cs.flatMap (Chunk.substituted replacement)) := by
  induction h generalizing line before place with
  | nil =>
      change (before ++ []).drop place = before.drop place ++ []
      rw [List.append_nil, List.append_nil]
  | @cons chunk rest more hread hmore ih =>
      have hbytes : before ++ Utf8.encode (chunk.text ++ rest) =
          (before ++ Utf8.encode chunk.text) ++ Utf8.encode rest := by
        rw [Utf8.encode, List.flatMap_append, ← List.append_assoc]
        rfl
      have hlength : before.length + Utf8.size chunk.text =
          (before ++ Utf8.encode chunk.text).length := by
        rw [List.length_append, Utf8.size]
      have hsplit : Utf8.encode ((chunk :: more).flatMap (Chunk.substituted replacement)) =
          Utf8.encode (chunk.substituted replacement) ++
            Utf8.encode (more.flatMap (Chunk.substituted replacement)) := by
        rw [List.flatMap_cons, Utf8.encode, List.flatMap_append]
        rfl
      have hkept (hsame : chunk.substituted replacement = chunk.text) :
          splice (before ++ Utf8.encode (chunk.text ++ rest)) place (edits replacement
              (declared (locateFrom (line + chunk.text.count '\n')
                (before.length + Utf8.size chunk.text) more))) =
            before.drop place ++
              Utf8.encode ((chunk :: more).flatMap (Chunk.substituted replacement)) := by
        have hplace' : place ≤ (before ++ Utf8.encode chunk.text).length := by
          rw [List.length_append]
          omega
        rw [hbytes, hlength, ih _ _ hplace', hsplit, hsame, ← List.append_assoc,
          List.drop_append_of_le_length hplace]
      by_cases hitem : ∃ clause, chunk.item = .imports clause
      · obtain ⟨clause, hitem⟩ := hitem
        have hsubstituted : chunk.substituted replacement =
            if clause.isReplaced replacement then (clause.lines replacement).toList
            else chunk.text := Chunk.substituted_imports hitem
        rw [declared_imports hitem, edits_cons]
        split
        next hreplaced =>
          rw [if_pos hreplaced] at hsubstituted
          have hrest := ih (line + chunk.text.count '\n') (before ++ Utf8.encode chunk.text)
            (Nat.le_refl _)
          rw [List.drop_length, List.nil_append] at hrest
          rw [splice, List.take_left, hbytes, hlength, hrest, hsplit, hsubstituted,
            List.append_assoc]
          rfl
        next hkeep =>
          rw [if_neg hkeep] at hsubstituted
          exact hkept hsubstituted
      · rw [declared_of_ne (not_exists.1 hitem)]
        exact hkept (Chunk.substituted_of_ne (not_exists.1 hitem))

/-- Substitution replaces the spans of the declarations that have a replacement and nothing else. -/
theorem ofText_substituteImports (replacement : Import → Option String) (source : String) :
    Utf8.ofText (substituteImports replacement source) =
      splice (Utf8.ofText source) 0 (edits replacement (declarations source)) := by
  rw [declarations_eq, substituteImports_eq, Utf8.ofText, String.toList_ofList]
  exact (splice_of_cut (cut_chunks source.toList) 1 [] (Nat.zero_le _)).symm

/-- A text is always read to its end, its declarations stand one after another on spans of it, and
substitution replaces the spans of the declarations that have a replacement and nothing else. -/
theorem substituteImports_eq_splice (source : String) :
    Cut source.toList (chunks source.toList) ∧
    (∀ found ∈ declarations source, Placed source.toList 0 found ∧
      found.start < found.stop ∧ found.stop ≤ (Utf8.ofText source).length) ∧
    (declarations source).Pairwise (fun a b => a.stop ≤ b.start) ∧
    ∀ replacement, Utf8.ofText (substituteImports replacement source) =
      splice (Utf8.ofText source) 0 (edits replacement (declarations source)) := by
  have hcut := cut_chunks source.toList
  refine ⟨hcut, ?_, pairwise_declared hcut 1 0, fun replacement =>
    ofText_substituteImports replacement source⟩
  intro found hfound
  have hplaced := placed_of_cut hcut 1 0 found hfound
  refine ⟨hplaced, hplaced.start_lt_stop, ?_⟩
  have hle := hplaced.stop_le
  rwa [Nat.zero_add] at hle

end Source

end Interaction
