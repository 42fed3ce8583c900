import Interaction.Proofs.Source.Declaration
import Interaction.Proofs.Source.Reading
import Interaction.Proofs.Source.Substitution
import Mathlib

/-!
# Comments and literals hide nothing

A text of comments, string literals and import declarations, each on lines of its own, declares just
the imports of its declarations. There is one exception. The comment `/**/` also opens a metadata
block, and then its own close is not one: if `@f_version` comes before the next close, all up to
there is metadata, with the declarations in it.
-/

namespace Interaction

namespace Source

open Source.Parser Lexeme

/-- A piece of a source text, which a line feed follows. -/
inductive Segment where
  | line (text : List Char)
  | block (text : List Char)
  | literal (text : List Char)
  | declaration (clause : Clause)
  deriving DecidableEq, Repr

namespace Segment

def text : Segment → List Char
  | line text => '/' :: '/' :: text
  | block text => '/' :: '*' :: (text ++ ['*', '/'])
  | literal text => '"' :: (text ++ ['"'])
  | declaration clause => clause.text.toList

/-- Whether a segment ends where it should. -/
def IsWellFormed : Segment → Prop
  | line text => '\n' ∉ text
  | block text => ¬ ['*', '/'] <:+: text
  | literal text => IsQuotable text
  | declaration clause => clause.IsWritable

instance (segment : Segment) : Decidable segment.IsWellFormed :=
  match segment with
  | line text => inferInstanceAs (Decidable ('\n' ∉ text))
  | block text => inferInstanceAs (Decidable (¬ ['*', '/'] <:+: text))
  | literal text => inferInstanceAs (Decidable (IsQuotable text))
  | declaration clause => inferInstanceAs (Decidable clause.IsWritable)

/-- The text of some segments. -/
def layout (segments : List Segment) : List Char :=
  segments.flatMap fun segment => segment.text ++ ['\n']

/-- The declarations among some segments, from a given line and byte on, and where they stand. -/
def placed (line start : Nat) : List Segment → List (Located Clause)
  | [] => []
  | segment :: more =>
    let stop := start + Utf8.size segment.text
    let others := placed (line + segment.text.count '\n' + 1) (stop + 1) more
    match segment with
    | declaration clause => ⟨line, start, stop, clause⟩ :: others
    | _ => others

/-- No empty comment opens a metadata block with what follows it. -/
def EmptyCommentsClose (segments : List Segment) : Prop :=
  ∀ more, block [] :: more <:+ segments → blockAhead (layout (block [] :: more)) = false

variable {segment : Segment} {segments more : List Segment} {t rest : List Char}

theorem layout_cons (segment : Segment) (more : List Segment) :
    layout (segment :: more) = segment.text ++ '\n' :: layout more := by
  rw [layout, List.flatMap_cons, List.append_assoc]
  rfl

theorem EmptyCommentsClose.tail (h : EmptyCommentsClose (segment :: more)) :
    EmptyCommentsClose more :=
  fun rest hrest => h rest (hrest.trans (List.suffix_cons segment more))

/-! ### What a segment is read as -/

/-- A text without a close is closed by the close that is put behind it. -/
theorem afterClose?_of_not_infix (h : ¬ ['*', '/'] <:+: t) (rest : List Char) :
    afterClose? (t ++ '*' :: '/' :: rest) = some rest := by
  induction t with
  | nil => rfl
  | cons c t ih =>
      have hmore := ih fun hin => h (hin.trans (List.suffix_cons c t).isInfix)
      cases t with
      | nil =>
          rw [List.singleton_append, afterClose?_of_not_close (by simp)]
          rfl
      | cons d t =>
          have hopen : ¬ (c = '*' ∧ d = '/') := by
            rintro ⟨rfl, rfl⟩
            exact h (List.prefix_append ['*', '/'] t).isInfix
          rw [List.cons_append, List.cons_append, afterClose?_of_not_close hopen]
          exact hmore

theorem blank_of_comment {s : List Char} (h : comment ('/' :: s) = some ((), rest)) :
    blank ('/' :: s) = some ((), rest) := by
  have hspace : (one isSpace >>= fun _ => pure ()) ('/' :: s) = none :=
    bind_of_none (one_of_not (by decide) _)
  rw [blank, orElse_of_none hspace]
  exact h

/-- A comment is stepped over or is metadata, and ends with its own close. -/
theorem exists_parse_block (h : ¬ ['*', '/'] <:+: t)
    (hempty : t = [] → blockAhead ((block t).text ++ rest) = false) :
    ∃ item, (∀ clause, item ≠ .imports clause) ∧
      Item.parse ((block t).text ++ rest) = some (item, rest) := by
  have htext : (block t).text ++ rest = '/' :: '*' :: (t ++ '*' :: '/' :: rest) := by
    simp [text]
  rw [htext] at hempty ⊢
  cases hblock : blockAhead ('/' :: '*' :: (t ++ '*' :: '/' :: rest)) with
  | false =>
      have hcomment : comment ('/' :: '*' :: (t ++ '*' :: '/' :: rest)) = some ((), rest) := by
        rw [comment, hblock, afterClose?_of_not_infix h]
        rfl
      exact ⟨.plain, by simp, Item.parse_of_blank (blank_of_comment hcomment)⟩
  | true =>
      have hne : t ≠ [] := by
        rintro rfl
        rw [hempty rfl] at hblock
        cases hblock
      obtain ⟨c, t, rfl⟩ := List.exists_cons_of_ne_nil hne
      have hstar : c = '*' := by
        by_contra hc
        rw [List.cons_append, blockAhead] at hblock
        · cases hblock
        · intro _ heq
          exact hc (List.cons.inj (List.cons.inj (List.cons.inj heq).2).2).1
      subst hstar
      have hclose := afterClose?_of_not_infix
        (fun hin => h (hin.trans (List.suffix_cons '*' t).isInfix)) rest
      have hnames := (Bool.and_eq_true_iff.1 hblock).1
      obtain ⟨tags, htags⟩ := Tag.block_eq_some_iff.2 ⟨_, rfl, hnames, hclose⟩
      exact ⟨.block tags, by simp, Item.parse_of_block htags⟩

/-- What a segment is read as. Only a declaration is an import. -/
theorem exists_parse (h : segment.IsWellFormed)
    (hempty : segment = block [] → blockAhead (segment.text ++ '\n' :: rest) = false) :
    ∃ item, (∀ clause, item = .imports clause ↔ segment = declaration clause) ∧
      Item.parse (segment.text ++ '\n' :: rest) = some (item, '\n' :: rest) := by
  cases segment with
  | line t =>
      have hcomment : comment ('/' :: '/' :: (t ++ '\n' :: rest)) = some ((), '\n' :: rest) := by
        refine comment_eq_some_iff.2 (.inl ⟨t, rfl, ?_, stops_cons (by decide) _⟩)
        intro c hc
        rw [bne_iff_ne]
        rintro rfl
        exact h hc
      exact ⟨.plain, fun _ => ⟨nofun, nofun⟩, Item.parse_of_blank (blank_of_comment hcomment)⟩
  | block t =>
      obtain ⟨item, hitem, hread⟩ : ∃ item, (∀ clause, item ≠ .imports clause) ∧
          Item.parse ((block t).text ++ '\n' :: rest) = some (item, '\n' :: rest) :=
        exists_parse_block h fun ht => hempty (ht ▸ rfl)
      exact ⟨item, fun clause => ⟨fun heq => absurd heq (hitem clause), nofun⟩, hread⟩
  | literal t =>
      have htext : (literal t).text ++ '\n' :: rest = '"' :: (t ++ '"' :: '\n' :: rest) := by
        simp [text]
      rw [htext]
      exact ⟨.plain, fun _ => ⟨nofun, nofun⟩,
        Item.parse_of_stringLiteral (stringLiteral_of_isQuotable h _)⟩
  | declaration clause =>
      refine ⟨.imports clause, fun other => ?_, Item.parse_of_clause
        (Clause.parse_text h (stops_cons (by decide) _))⟩
      rw [Item.imports.injEq, declaration.injEq]

/-! ### What segments are read as -/

theorem placed_of_ne {line start : Nat} (h : ∀ clause, segment ≠ declaration clause) :
    placed line start (segment :: more) = placed (line + segment.text.count '\n' + 1)
      (start + Utf8.size segment.text + 1) more := by
  cases segment with
  | declaration clause => exact absurd rfl (h clause)
  | _ => rfl

/-- A text of segments is cut segment by segment. -/
theorem exists_cut_layout (h : ∀ segment ∈ segments, segment.IsWellFormed)
    (hclose : EmptyCommentsClose segments) :
    ∃ cs, Cut (layout segments) cs ∧
      ∀ line start, declared (locateFrom line start cs) = placed line start segments := by
  induction segments with
  | nil => exact ⟨[], .nil, fun _ _ => rfl⟩
  | cons segment more ih =>
      obtain ⟨cs, hcut, hplaced⟩ := ih (fun other hother => h other (.tail _ hother)) hclose.tail
      have hempty : segment = block [] →
          blockAhead (segment.text ++ '\n' :: layout more) = false := by
        rintro rfl
        rw [← layout_cons]
        exact hclose more List.suffix_rfl
      obtain ⟨item, hitem, hread⟩ := exists_parse (h segment (.head _)) hempty
      have hbreak : Cut ('\n' :: layout more) (⟨['\n'], .plain⟩ :: cs) :=
        @Cut.cons ⟨['\n'], .plain⟩ _ cs (Item.parse_of_blank (blank_of_isSpace (by decide) _)) hcut
      have hall := @Cut.cons ⟨segment.text, item⟩ _ _ hread hbreak
      have hrest (line start : Nat) :
          declared (locateFrom line start (⟨['\n'], .plain⟩ :: cs)) =
            placed (line + 1) (start + 1) more := by
        have hplain : ∀ clause, Item.plain ≠ .imports clause := fun _ => nofun
        rw [declared_of_ne hplain, hplaced]
        rfl
      refine ⟨_, layout_cons segment more ▸ hall, ?_⟩
      intro line start
      by_cases hdeclaration : ∃ clause, segment = declaration clause
      · obtain ⟨clause, rfl⟩ := hdeclaration
        rw [declared_imports ((hitem clause).2 rfl), hrest]
        rfl
      · rw [not_exists] at hdeclaration
        rw [declared_of_ne fun clause heq => hdeclaration clause ((hitem clause).1 heq), hrest,
          placed_of_ne hdeclaration]

/-- A text of segments declares the imports of its declarations, in order and where they stand, if
none of its empty comments opens a metadata block. -/
theorem declarations_layout (h : ∀ segment ∈ segments, segment.IsWellFormed)
    (hclose : EmptyCommentsClose segments) :
    declarations (String.ofList (layout segments)) = placed 1 0 segments := by
  obtain ⟨cs, hcut, hplaced⟩ := exists_cut_layout h hclose
  rw [declarations_eq, String.toList_ofList, ← hcut.eq_chunks, hplaced]

/-- An import in a line comment, in a metadata block and in a string, an empty comment, and three
declarations. -/
def mixed : List Segment :=
  [.line " import \"A\"".toList, .block "* @f_version 1.0.0\nimport B from 0x01\n".toList,
    .declaration (.bare "C"), .literal "import D from 0x01".toList, .block [],
    .declaration (.located ["E", "F"] "0x02"), .declaration (.filed ["G"] "./G.cdc")]

theorem declarations_layout_mixed :
    declarations (String.ofList (layout mixed)) =
      [⟨5, 57, 67, .bare "C"⟩, ⟨8, 94, 115, .located ["E", "F"] "0x02"⟩,
        ⟨9, 116, 139, .filed ["G"] "./G.cdc"⟩] := by
  have hclose : EmptyCommentsClose mixed := by
    intro more hmore
    obtain rfl : more = [.declaration (.located ["E", "F"] "0x02"),
        .declaration (.filed ["G"] "./G.cdc")] := by
      simpa [mixed, List.suffix_cons_iff] using hmore
    decide +kernel
  have hplaced : placed 1 0 mixed =
      [⟨5, 57, 67, .bare "C"⟩, ⟨8, 94, 115, .located ["E", "F"] "0x02"⟩,
        ⟨9, 116, 139, .filed ["G"] "./G.cdc"⟩] := by cbv
  rw [← hplaced]
  exact declarations_layout (by decide +kernel) hclose

/-- The first comment is taken for the start of a metadata block, which ends with the last one. -/
theorem declarations_layout_opened :
    ∃ segments : List Segment, (∀ segment ∈ segments, segment.IsWellFormed) ∧
      declarations (String.ofList (layout segments)) ≠ placed 1 0 segments := by
  refine ⟨[.block [], .declaration (.bare "A"), .block "@f_version".toList],
    by decide +kernel, ?_⟩
  have hnone : declarations (String.ofList (layout
      [.block [], .declaration (.bare "A"), .block "@f_version".toList])) = [] := by cbv
  have hone : placed 1 0 [.block [], .declaration (.bare "A"), .block "@f_version".toList] =
      [⟨2, 5, 15, .bare "A"⟩] := by cbv
  rw [hnone, hone]
  exact (List.cons_ne_nil _ _).symm

end Segment

end Source

end Interaction
