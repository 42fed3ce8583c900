import Interaction.Proofs.Source.Header

/-!
# Leaving addresses out

After each declaration that spells out an address has been split into bare ones, is the text still
cut where it was? What ends with a quote is read whatever comes after it, so of the declarations
only the comment `/**/` inside them is left out here. Between them a quote that is not closed may
take in what now stands on its line. A text is `Undisturbed` if nothing of this kind stands before
a declaration that is split, and then what is read again is what was read, without the addresses.
-/

namespace Interaction

namespace Source

open Source.Parser Lexeme

variable {α : Type} {a : α} {p : Parser α} {s s' x rest rest' : List Char} {text : String}
  {clause : Clause} {chunk : Chunk} {cs ds : List Chunk}

theorem head?_append_congr (h : rest'.head? = rest.head?) (x : List Char) :
    (x ++ rest').head? = (x ++ rest).head? := by
  rw [List.head?_append, List.head?_append, h]

/-- What is read starts with the same character whatever comes after it. -/
theorem head?_append_of_advances (hadvances : Advances p) (h : p (x ++ rest) = some (a, rest))
    (rest' : List Char) : (x ++ rest').head? = (x ++ rest).head? := by
  have hx : x ≠ [] := by
    rintro rfl
    exact Nat.lt_irrefl _ (hadvances h).2
  rw [List.head?_append_of_ne_nil _ hx, List.head?_append_of_ne_nil _ hx]

/-! ### What ends with a quote is read by itself -/

/-- A keyword before something that is read with the same value. -/
theorem keyword_bind_append (hadvances : Advances p) (hx : NoEmptyComment x)
    (h : (keyword text >>= fun _ => p) (x ++ rest) = some (a, rest))
    (happend : ∀ z, NoEmptyComment z → p (z ++ rest) = some (a, rest) →
      p (z ++ rest') = some (a, rest')) :
    (keyword text >>= fun _ => p) (x ++ rest') = some (a, rest') := by
  have hconsumes : Consumes (keyword text) := .bind (.exactly _) fun _ => .notAhead _
  obtain ⟨⟨⟩, y, z, rfl, hkeyword, hnext⟩ :=
    split_of_bind hconsumes (fun _ => hadvances.consumes) h
  obtain ⟨hy, hstop⟩ := keyword_eq_some_iff.1 hkeyword
  have hhead := head?_append_of_advances hadvances hnext rest'
  rw [List.append_cancel_right_eq] at hy
  rw [List.append_assoc]
  exact bind_eq_some_iff.2 ⟨(), _, keyword_eq_some_iff.2 ⟨hy ▸ rfl, hstop.of_head? hhead⟩,
    happend z hx.right hnext⟩

theorem nextItem_word_append {w : String} (hx : NoEmptyComment x)
    (h : nextItem word (x ++ rest) = some (w, rest)) (hhead : rest'.head? = rest.head?) :
    nextItem word (x ++ rest') = some (w, rest') := by
  have hword : Consumes (do skip; word) := .bind consumes_skip fun _ => advances_word.consumes
  obtain ⟨⟨⟩, y, z, rfl, hcomma, hnext⟩ :=
    split_of_bind (advances_symbol (by decide)).consumes (fun _ => hword) h
  rw [List.append_assoc]
  refine bind_eq_some_iff.2 ⟨(), _, symbol_append rfl (by decide) hx.left hcomma _, ?_⟩
  exact skip_bind_append advances_word (Starts.word.mono fun _ => solid_of_isWordStart) hx.right
    hnext fun _ _ h => word_append h hhead

/-- Names are read up to what is no comma, as long as the character after them does not change. -/
theorem many_nextItem_word_append {names : List String} (hx : NoEmptyComment x)
    (h : many (nextItem word) (x ++ rest) = some (names, rest)) (hhead : rest'.head? = rest.head?)
    (hend : symbol "," rest' = none) :
    many (nextItem word) (x ++ rest') = some (names, rest') := by
  generalize hs : x ++ rest = s at h
  fun_induction many (nextItem word) s generalizing x names with
  | case1 s hnone =>
      cases h
      rw [List.append_left_eq_self.1 hs]
      exact many_of_none (bind_of_none hend)
  | case2 s first mid hfirst hshorter ih =>
      subst hs
      obtain ⟨⟨more, after⟩, hmore, he⟩ := Option.map_eq_some_iff.1 h
      cases he
      obtain ⟨z, rfl⟩ := Consumes.many (advances_nextItem advances_word).consumes hmore
      obtain ⟨y, rfl, hread⟩ := split_of_read (advances_nextItem advances_word).consumes hfirst
      have hread' := nextItem_word_append hx.left hread (head?_append_congr hhead z)
      rw [List.append_assoc,
        many_of_some hread' (advances_nextItem advances_word hread').2, ih hx.right rfl hmore]
      rfl
  | case3 s first mid hfirst hsame => exact absurd (advances_nextItem advances_word hfirst).2 hsame

theorem separated_word_append {names : List String} (hx : NoEmptyComment x)
    (h : separated word (x ++ rest) = some (names, rest)) (hhead : rest'.head? = rest.head?)
    (hend : symbol "," rest' = none) : separated word (x ++ rest') = some (names, rest') := by
  have hmany : Consumes (many (nextItem word)) := .many (advances_nextItem advances_word).consumes
  obtain ⟨first, y, z, rfl, hfirst, h⟩ := split_of_bind advances_word.consumes
    (fun _ => .bind hmany fun _ => .pure _) h
  obtain ⟨more, _, hmore, he⟩ := bind_eq_some_iff.1 h
  cases he
  rw [List.append_assoc]
  exact bind_eq_some_iff.2 ⟨first, _, word_append hfirst (head?_append_congr hhead z),
    bind_eq_some_iff.2 ⟨more, _, many_nextItem_word_append hx.right hmore hhead hend, rfl⟩⟩

namespace Clause

/-- Whether a declaration spells out an address. -/
def isLocated : Clause → Bool
  | located _ _ => true
  | _ => false

/-- Where the names of a declaration come from. -/
def source (names : List String) : Parser Clause :=
  located names <$> addressLiteral <|> filed names <$> stringLiteral

/-- What stands behind the names of a declaration. -/
def origin (names : List String) : Parser Clause := do
  skip
  keyword "from"
  skip
  source names

theorem starts_source (names : List String) : Starts Solid (source names) :=
  .orElse (.map (Starts.exactly rfl (by decide)).bind) (.map (Starts.exactly rfl (by decide)).bind)

theorem advances_source (names : List String) : Advances (source names) :=
  .orElse (.map (.bind (.exactly (by decide)) fun _ => .bind (Advances.one _).consumes fun _ =>
    .bind (.run _) fun _ => .pure _)) (.map advances_stringLiteral)

theorem advances_origin (names : List String) : Advances (origin names) :=
  .bind_right consumes_skip fun _ => .bind (advances_keyword (by decide)) fun _ =>
    .bind consumes_skip fun _ => (advances_source names).consumes

theorem source_append {names : List String} (h : source names (x ++ rest) = some (clause, rest))
    (hclause : clause.isLocated = false) : source names (x ++ rest') = some (clause, rest') := by
  rcases orElse_eq_some_iff.1 h with h | ⟨-, h⟩
  · obtain ⟨address, -, rfl⟩ := map_eq_some_iff.1 h
    cases hclause
  · obtain ⟨file, hfile, rfl⟩ := map_eq_some_iff.1 h
    have hfile' := stringLiteral_append hfile rest'
    have haddress : addressLiteral (x ++ rest') = none := by
      obtain ⟨c, v, heq, rfl⟩ : ∃ c v, x ++ rest' = c :: v ∧ '"' = c :=
        (Starts.exactly rfl rfl).bind hfile'
      rw [heq]
      exact bind_of_none (exactly_of_ne rfl (by decide) v)
    rw [source, orElse_of_none (map_of_none haddress)]
    exact map_eq_some_iff.2 ⟨file, hfile', rfl⟩

theorem origin_append {names : List String} (hx : NoEmptyComment x)
    (h : origin names (x ++ rest) = some (clause, rest)) (hclause : clause.isLocated = false) :
    origin names (x ++ rest') = some (clause, rest') := by
  have hspaced : Consumes (do skip; source names) :=
    .bind consumes_skip fun _ => (advances_source names).consumes
  refine skip_bind_append (.bind (advances_keyword (by decide)) fun _ => hspaced)
    (Starts.exactly rfl (by decide)).bind.bind hx h fun y hy h => ?_
  refine keyword_bind_append (.bind_right consumes_skip fun _ => advances_source names) hy h
    fun z hz h => ?_
  exact skip_bind_append (advances_source names) (starts_source names) hz h
    fun _ _ h => source_append h hclause

theorem symbol_of_origin {names : List String} (h : origin names s = some (clause, rest)) :
    symbol "," s = none := by
  obtain ⟨⟨⟩, mid, hskip, h⟩ := bind_eq_some_iff.1 h
  obtain ⟨⟨⟩, _, hfrom, -⟩ := bind_eq_some_iff.1 h
  rw [(keyword_eq_some_iff.1 hfrom).1] at hskip
  exact symbol_of_skip rfl hskip (by decide)

theorem sourced_append (hx : NoEmptyComment x) (h : sourced (x ++ rest) = some (clause, rest))
    (hclause : clause.isLocated = false) : sourced (x ++ rest') = some (clause, rest') := by
  obtain ⟨names, y, z, rfl, hnames, h⟩ := split_of_bind (advances_separated advances_word).consumes
    (fun names => (advances_origin names).consumes) h
  have h' : origin names (z ++ rest') = some (clause, rest') := origin_append hx.right h hclause
  have hhead := head?_append_of_advances (advances_origin names) h rest'
  rw [List.append_assoc]
  exact bind_eq_some_iff.2 ⟨names, _,
    separated_word_append hx.left hnames hhead (symbol_of_origin h'), h'⟩

/-- A declaration without an address ends with a quote, and is read whatever comes after that. -/
theorem parse_append (hx : NoEmptyComment x) (h : Clause.parse (x ++ rest) = some (clause, rest))
    (hclause : clause.isLocated = false) : Clause.parse (x ++ rest') = some (clause, rest') := by
  have hsourced : Advances sourced :=
    .bind (advances_separated advances_word) fun names => (advances_origin names).consumes
  have hadvances : Advances (sourced <|> bare <$> stringLiteral) :=
    .orElse hsourced (.map advances_stringLiteral)
  have hstart : Starts Solid (sourced <|> bare <$> stringLiteral) :=
    .orElse (Starts.word.mono fun _ => solid_of_isWordStart).bind.bind
      (.map (Starts.exactly rfl (by decide)).bind)
  refine keyword_bind_append (.bind_right consumes_skip fun _ => hadvances) hx h fun y hy h => ?_
  refine skip_bind_append hadvances hstart hy h fun z hz h => ?_
  rcases orElse_eq_some_iff.1 h with h | ⟨-, h⟩
  · exact orElse_of_some (sourced_append hz h hclause)
  · obtain ⟨name, hname, rfl⟩ := map_eq_some_iff.1 h
    have hname' := stringLiteral_append hname rest'
    have hnone : sourced (z ++ rest') = none := by
      obtain ⟨c, v, heq, rfl⟩ : ∃ c v, z ++ rest' = c :: v ∧ '"' = c :=
        (Starts.exactly rfl rfl).bind hname'
      rw [heq]
      exact bind_of_none (bind_of_none (word_of_not (by decide) v))
    rw [orElse_of_none hnone]
    exact map_eq_some_iff.2 ⟨name, hname', rfl⟩

end Clause

/-! ### Leaving addresses out -/

/-- Whether a chunk is a declaration that spells out an address. -/
def Chunk.isLocated (chunk : Chunk) : Bool :=
  chunk.clause?.any Clause.isLocated

/-- The bare text of an import that has an address. -/
def bareLine? (i : Import) : Option String :=
  if i.isExplicit then some (Import.bareText i.name) else none

/-- Whether a chunk is cut off where it is whatever declarations after it lose their addresses. -/
def Chunk.Lasting (chunk : Chunk) : Prop :=
  match chunk.item with
  | .imports (.located _ _) => True
  | .imports _ => NoEmptyComment chunk.text
  | _ => chunk.Settled []

/-- Whether every chunk before a declaration that spells out an address lasts. -/
def Undisturbed (cs : List Chunk) : Prop :=
  cs.Pairwise fun chunk later => later.isLocated = true → chunk.Lasting

instance (chunk : Chunk) : Decidable chunk.Lasting :=
  match chunk with
  | ⟨_, .imports (.located _ _)⟩ => isTrue trivial
  | ⟨text, .imports (.bare _)⟩ => inferInstanceAs (Decidable (NoEmptyComment text))
  | ⟨text, .imports (.filed _ _)⟩ => inferInstanceAs (Decidable (NoEmptyComment text))
  | ⟨text, .block tags⟩ => inferInstanceAs (Decidable (Chunk.Settled ⟨text, .block tags⟩ []))
  | ⟨text, .pragma fields⟩ => inferInstanceAs (Decidable (Chunk.Settled ⟨text, .pragma fields⟩ []))
  | ⟨text, .plain⟩ => inferInstanceAs (Decidable (Chunk.Settled ⟨text, .plain⟩ []))
  | ⟨_, .brokenPragma⟩ => isFalse id
  | ⟨_, .entry _⟩ => isFalse id

instance : DecidablePred Undisturbed := fun _ =>
  inferInstanceAs (Decidable (List.Pairwise _ _))

theorem Chunk.substituted_bareLine?_of_not_located (h : chunk.isLocated = false) :
    chunk.substituted bareLine? = chunk.text := by
  cases hitem : chunk.item.isImport with
  | false => exact Chunk.substituted_of_ne (Item.ne_imports hitem)
  | true =>
      obtain ⟨clause, hclause⟩ := Item.exists_imports hitem
      have hkept : clause.isReplaced bareLine? = false := by
        rw [isLocated, clause?_imports hclause] at h
        cases clause with
        | bare name => rfl
        | located names address => cases h
        | filed names file =>
            simp [Clause.isReplaced, Clause.imports, bareLine?, Import.isExplicit]
      rw [Chunk.substituted_imports hclause, hkept]
      rfl

theorem Chunk.substituted_bareLine?_located {names : List String} {address : String}
    (hitem : chunk.item = .imports (.located names address)) (hne : names ≠ []) :
    chunk.substituted bareLine? = written (names.map .bare) := by
  have hreplaced : (Clause.located names address).isReplaced bareLine? = true := by
    obtain ⟨name, more, rfl⟩ := List.exists_cons_of_ne_nil hne
    rfl
  have hlines : (Clause.located names address).lines bareLine? =
      "\n".intercalate ((names.map Clause.bare).map Clause.text) := by
    rw [Clause.lines, Clause.imports, List.map_map, List.map_map]
    rfl
  rw [Chunk.substituted_imports hitem, if_pos hreplaced, hlines, written]

theorem Chunk.exists_located (h : chunk.isLocated = true) :
    ∃ names address, chunk.item = .imports (.located names address) := by
  cases hitem : chunk.item.isImport with
  | false =>
      rw [isLocated, clause?_of_not_import hitem] at h
      cases h
  | true =>
      obtain ⟨clause, hclause⟩ := Item.exists_imports hitem
      rw [isLocated, clause?_imports hclause] at h
      cases clause with
      | located names address => exact ⟨names, address, hclause⟩
      | _ => cases h

/-- Leaving addresses out keeps the first character. -/
theorem head?_substituted_bareLine? (h : Cut s cs) :
    (cs.flatMap (Chunk.substituted bareLine?)).head? = s.head? := by
  refine head?_flatMap_substituted h fun chunk hmem => ?_
  cases hlocated : chunk.isLocated with
  | false => rw [Chunk.substituted_bareLine?_of_not_located hlocated]
  | true =>
      obtain ⟨names, address, hitem⟩ := Chunk.exists_located hlocated
      obtain ⟨after, hparse⟩ := h.exists_clause hmem hitem
      have hwords : names ≠ [] ∧ _ := Clause.answers_parse hparse
      rw [Chunk.substituted_bareLine?_located hitem hwords.1,
        head?_written (mt List.map_eq_nil_iff.1 hwords.1), Clause.head?_of_parse hparse]

/-- Before the last declaration that spells out an address, a chunk that lasts is read again. -/
theorem exists_parse_of_lasting (hread : Item.parse (chunk.text ++ rest) = some (chunk.item, rest))
    (hlocated : chunk.isLocated = false) (hlasting : chunk.Lasting)
    (hhead : rest'.head? = rest.head?) :
    ∃ item, Item.parse (chunk.text ++ rest') = some (item, rest') ∧
      Chunk.clause? ⟨chunk.text, item⟩ = chunk.clause? := by
  cases hitem : chunk.item.isImport with
  | false =>
      have hsettled : Chunk.Settled ⟨chunk.text, chunk.item⟩ rest := by
        obtain ⟨text, item⟩ := chunk
        cases item with
        | imports clause => cases hitem
        | _ => exact hlasting
      obtain ⟨item, hother, hread'⟩ := exists_parse_of_settled hread hitem hsettled hhead
      exact ⟨item, hread', by rw [Chunk.clause?_of_not_import hother,
        Chunk.clause?_of_not_import hitem]⟩
  | true =>
      obtain ⟨clause, hclause⟩ := Item.exists_imports hitem
      rw [Chunk.isLocated, Chunk.clause?_imports hclause] at hlocated
      have hcomment : NoEmptyComment chunk.text := by
        rw [Chunk.Lasting, hclause] at hlasting
        cases clause with
        | located names address => cases hlocated
        | _ => exact hlasting
      rw [hclause] at hread
      have hread' : Clause.parse (chunk.text ++ rest') = some (clause, rest') :=
        Clause.parse_append hcomment (Clause.parse_of_item hread) hlocated
      exact ⟨.imports clause, Item.parse_of_clause hread', (Chunk.clause?_imports hclause).symm⟩

/-- A chunk that keeps its text is read again once addresses have been left out behind it. -/
theorem exists_parse_of_not_located
    (hread : Item.parse (chunk.text ++ rest) = some (chunk.item, rest)) (hrest : Cut rest cs)
    (hlocated : chunk.isLocated = false)
    (hlasting : ∀ later ∈ cs, later.isLocated = true → chunk.Lasting) :
    ∃ item, Item.parse (chunk.text ++ cs.flatMap (Chunk.substituted bareLine?)) =
        some (item, cs.flatMap (Chunk.substituted bareLine?)) ∧
      Chunk.clause? ⟨chunk.text, item⟩ = chunk.clause? := by
  by_cases hlast : ∃ later ∈ cs, later.isLocated = true
  · obtain ⟨later, hmem, hlater⟩ := hlast
    exact exists_parse_of_lasting hread hlocated (hlasting later hmem hlater)
      (head?_substituted_bareLine? hrest)
  · -- no declaration after the chunk has an address, so nothing is left out
    have hkept : cs.flatMap (Chunk.substituted bareLine?) = rest := by
      rw [← hrest.join]
      refine List.flatMap_congr fun later hmem => ?_
      refine Chunk.substituted_bareLine?_of_not_located ?_
      rw [Bool.eq_false_iff]
      exact fun hlater => hlast ⟨later, hmem, hlater⟩
    rw [hkept]
    exact ⟨chunk.item, hread, rfl⟩

theorem Clause.unlocated_of_not_located (h : clause.isLocated = false) :
    clause.unlocated = [clause] := by
  cases clause with
  | located names address => cases h
  | _ => rfl

/-- An undisturbed text is cut into the same declarations when addresses are left out, only that a
declaration with an address is bare ones. -/
theorem exists_cut_unlocated (h : Cut s cs) (hcs : Undisturbed cs) :
    ∃ ds, Cut (cs.flatMap (Chunk.substituted bareLine?)) ds ∧
      ds.filterMap Chunk.clause? = (cs.filterMap Chunk.clause?).flatMap Clause.unlocated := by
  induction h with
  | nil => exact ⟨[], .nil, rfl⟩
  | @cons chunk rest more hread hmore ih =>
      obtain ⟨hlater, hundisturbed⟩ := List.pairwise_cons.1 hcs
      obtain ⟨ds, hds, hclauses⟩ := ih hundisturbed
      rw [List.flatMap_cons]
      cases hlocated : chunk.isLocated with
      | true =>
          obtain ⟨names, address, hitem⟩ := Chunk.exists_located hlocated
          rw [hitem] at hread
          obtain ⟨hne, hwords⟩ : names ≠ [] ∧ ∀ name ∈ names, IsWord name.toList :=
            Clause.answers_parse (Clause.parse_of_item hread)
          have hwritable : ∀ clause ∈ names.map Clause.bare, clause.IsWritable :=
            List.forall_mem_map.2 hwords
          have hbare (rest : List Char) : ∀ clause ∈ names.map Clause.bare,
              Clause.parse (clause.text.toList ++ rest) = some (clause, rest) :=
            List.forall_mem_map.2 fun name hname => Clause.parse_bareText (hwords name hname) rest
          obtain ⟨es, hes, hnames⟩ :=
            exists_cut_written (mt List.map_eq_nil_iff.1 hne) hwritable (hbare _) hds
          refine ⟨es, ?_, ?_⟩
          · rwa [Chunk.substituted_bareLine?_located hitem hne]
          · rw [hnames, hclauses, List.filterMap_cons, Chunk.clause?_imports hitem]
            rfl
      | false =>
          obtain ⟨item, hread', hsame⟩ := exists_parse_of_not_located hread hmore hlocated hlater
          rw [Chunk.substituted_bareLine?_of_not_located hlocated]
          refine ⟨⟨chunk.text, item⟩ :: ds, @Cut.cons ⟨chunk.text, item⟩ _ ds hread' hds, ?_⟩
          rw [List.filterMap_cons, List.filterMap_cons, hsame]
          cases hclause : chunk.clause? with
          | none => exact hclauses
          | some clause =>
              rw [Chunk.isLocated, hclause] at hlocated
              rw [List.flatMap_cons, Clause.unlocated_of_not_located hlocated, hclauses]
              rfl

/-- Leaving addresses out of an undisturbed text splits the declarations that have one, and no other
declaration changes. -/
theorem map_value_declarations_unlocated {text : String} (h : Undisturbed (chunks text.toList)) :
    (declarations (substituteImports bareLine? text)).map Located.value =
      ((declarations text).map Located.value).flatMap Clause.unlocated := by
  obtain ⟨ds, hds, hclauses⟩ := exists_cut_unlocated (cut_chunks _) h
  rw [map_value_declarations, map_value_declarations, substituteImports_eq, String.toList_ofList,
    ← hds.eq_chunks, hclauses]

/-- A quote that is left open takes in what is written for the declaration after it, and the string
behind that declaration is one no more. -/
def opened : String := "\" import A from\n0x01 \"import A from 0x02\"\n"

example : (declarations opened).map Located.value = [.located ["A"] "0x01"] ∧
    (declarations (substituteImports bareLine? opened)).map Located.value =
      [.located ["A"] "0x02"] := by
  cbv

/-- A declaration becomes bare ones unless it names a file. -/
theorem Clause.unlocated_bare_iff : (∀ other ∈ clause.unlocated, ∃ name, other = .bare name) ↔
    ∀ names file, clause ≠ .filed names file := by
  cases clause with
  | bare name => simp [unlocated]
  | located names address => simp [unlocated]
  | filed names file => simp [unlocated]

end Source

end Interaction
