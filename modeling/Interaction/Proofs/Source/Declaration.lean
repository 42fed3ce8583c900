import Interaction.Proofs.Source.Enclosed
import Interaction.Source.Import

/-!
# Declarations as they are written

An import declaration is written on one line, with a comma and a space between names and single
spaces elsewhere. It is read back from any text that it stands in front of, as long as no letter or
digit follows it.
-/

namespace Interaction

namespace Source

open Source.Parser Lexeme

variable {s t rest : List Char} {c : Char} {names : List String} {clause : Clause}

/-! ### Blanks and literals -/

theorem skip_of_solid (hc : Solid c) (s : List Char) : skip (c :: s) = some ((), c :: s) :=
  bind_eq_some_iff.2 ⟨[], c :: s, many_of_none (blank_of_solid hc s), rfl⟩

theorem skip_space (hc : Solid c) (s : List Char) : skip (' ' :: c :: s) = some ((), c :: s) := by
  have hspace : blank (' ' :: c :: s) = some ((), c :: s) := blank_of_isSpace (by decide) _
  refine bind_eq_some_iff.2 ⟨[()], c :: s, ?_, rfl⟩
  rw [many_of_some hspace (Nat.lt_succ_self _), many_of_none (blank_of_solid hc s)]
  rfl

/-- A text that can stand between quotes as it is. -/
def IsQuotable (s : List Char) : Prop :=
  ∀ c ∈ s, c ≠ '"' ∧ c ≠ '\\' ∧ c ≠ '\n'

instance (s : List Char) : Decidable (IsQuotable s) :=
  List.decidableBAll (fun c => c ≠ '"' ∧ c ≠ '\\' ∧ c ≠ '\n') s

/-- No word holds a quote, a backslash or a line feed. -/
theorem IsWord.isQuotable (h : IsWord s) : IsQuotable s := by
  have hne {c k : Char} {test : Char → Bool} (hc : test c = true) (hk : test k = false) :
      c ≠ k := by
    rintro rfl
    rw [hc] at hk
    cases hk
  cases s with
  | nil => exact h.elim
  | cons first more =>
      obtain ⟨hfirst, hmore⟩ := h
      intro c hc
      rcases List.mem_cons.1 hc with rfl | hc
      · exact ⟨hne hfirst (by decide), hne hfirst (by decide), hne hfirst (by decide)⟩
      · have hchar := hmore c hc
        exact ⟨hne hchar (by decide), hne hchar (by decide), hne hchar (by decide)⟩

theorem IsQuotable.tail (h : IsQuotable (c :: t)) : IsQuotable t :=
  fun d hd => h d (.tail _ hd)

namespace Lexeme

theorem quoted_of_ne (hquote : c ≠ '"') (hslash : c ≠ '\\') (hbreak : c ≠ '\n') (s : List Char) :
    quoted (c :: s) = (quoted s).map fun found => (c :: found.1, found.2) := by
  rw [quoted]
  · exact hquote
  · exact hbreak
  · exact fun _ _ heq => absurd heq hslash

theorem unescape_of_ne (hslash : c ≠ '\\') (s : List Char) :
    unescape (c :: s) = c :: unescape s := by
  rw [unescape]
  · exact fun heq => absurd heq hslash
  · exact fun _ heq => absurd heq hslash
  · exact fun _ heq => absurd heq hslash
  · exact fun _ _ heq => absurd heq hslash

theorem quoted_of_isQuotable (h : IsQuotable t) (rest : List Char) :
    quoted (t ++ '"' :: rest) = some (t, rest) := by
  induction t with
  | nil => rfl
  | cons c t ih =>
      obtain ⟨hquote, hslash, hbreak⟩ := h c (.head _)
      rw [List.cons_append, quoted_of_ne hquote hslash hbreak, ih h.tail]
      rfl

theorem unescape_of_isQuotable (h : IsQuotable t) : unescape t = t := by
  induction t with
  | nil => rfl
  | cons c t ih => rw [unescape_of_ne (h c (.head _)).2.1, ih h.tail]

theorem stringLiteral_of_isQuotable (h : IsQuotable t) (rest : List Char) :
    stringLiteral ('"' :: (t ++ '"' :: rest)) = some (String.ofList t, rest) := by
  refine bind_eq_some_iff.2 ⟨(), t ++ '"' :: rest, rfl, bind_eq_some_iff.2 ⟨t, rest, ?_, ?_⟩⟩
  · exact quoted_of_isQuotable h rest
  · rw [unescape_of_isQuotable h]
    rfl

/-! ### Names -/

/-- What stands behind the first of some names. -/
def moreNames (names : List String) : List Char :=
  names.flatMap fun name => ',' :: ' ' :: name.toList

theorem toList_intercalate (name : String) (names : List String) :
    (", ".intercalate (name :: names)).toList = name.toList ++ moreNames names := by
  induction names generalizing name with
  | nil => simp [moreNames]
  | cons next more ih =>
      rw [String.intercalate_cons_cons, String.toList_append, String.toList_append, ih,
        List.append_assoc]
      rfl

theorem stops_moreNames (h : Stops isWordChar rest) (names : List String) :
    Stops isWordChar (moreNames names ++ rest) := by
  cases names with
  | nil => exact h
  | cons name more => exact stops_cons (by decide) _

theorem nextItem_word {name : String} (hname : IsWord name.toList) (h : Stops isWordChar rest) :
    nextItem word (',' :: ' ' :: (name.toList ++ rest)) = some (name, rest) := by
  have hcomma : symbol "," (',' :: ' ' :: (name.toList ++ rest)) =
      some ((), ' ' :: (name.toList ++ rest)) :=
    (symbol_eq_some_iff rfl).2 (skip_of_solid (by decide) _)
  have hspace : skip (' ' :: (name.toList ++ rest)) = some ((), name.toList ++ rest) := by
    obtain ⟨c, more, heq, hc⟩ := hname.exists_cons
    rw [heq]
    exact skip_space hc _
  rw [nextItem, bind_of_some hcomma, bind_of_some hspace]
  exact word_eq_some_iff.2 ⟨hname, rfl, h⟩

/-- Names with commas between them are read up to what is no comma. -/
theorem separated_word (hne : names ≠ []) (hnames : ∀ name ∈ names, IsWord name.toList)
    (hstop : Stops isWordChar rest) (hend : symbol "," rest = none) :
    separated word ((", ".intercalate names).toList ++ rest) = some (names, rest) := by
  have hmore (names : List String) (hnames : ∀ name ∈ names, IsWord name.toList) :
      many (nextItem word) (moreNames names ++ rest) = some (names, rest) := by
    induction names with
    | nil => exact many_of_none (bind_of_none hend)
    | cons name more ih =>
        have hfirst : nextItem word (moreNames (name :: more) ++ rest) =
            some (name, moreNames more ++ rest) := by
          rw [moreNames, List.flatMap_cons, List.append_assoc]
          exact nextItem_word (hnames name (.head _)) (stops_moreNames hstop more)
        rw [many_of_some hfirst (advances_nextItem advances_word hfirst).2,
          ih fun other hother => hnames other (.tail _ hother)]
        rfl
  obtain ⟨name, more, rfl⟩ := List.exists_cons_of_ne_nil hne
  rw [toList_intercalate, List.append_assoc]
  have hfirst : word (name.toList ++ (moreNames more ++ rest)) =
      some (name, moreNames more ++ rest) :=
    word_eq_some_iff.2 ⟨hnames name (.head _), rfl, stops_moreNames hstop more⟩
  exact bind_eq_some_iff.2 ⟨name, _, hfirst, bind_eq_some_iff.2
    ⟨more, rest, hmore more fun other hother => hnames other (.tail _ hother), rfl⟩⟩

end Lexeme

/-! ### Declarations -/

namespace Clause

/-- How a declaration is written. -/
def text : Clause → String
  | bare name => Import.bareText name
  | located names address => "import " ++ ", ".intercalate names ++ " from " ++ address
  | filed names file => "import " ++ ", ".intercalate names ++ " from \"" ++ file ++ "\""

/-- Whether a declaration names contracts by words, at least one, and has an address literal or a
file that needs no escapes. -/
def IsWritable : Clause → Prop
  | bare name => IsWord name.toList
  | located names address =>
    names ≠ [] ∧ (∀ name ∈ names, IsWord name.toList) ∧ IsAddress address.toList
  | filed names file =>
    names ≠ [] ∧ (∀ name ∈ names, IsWord name.toList) ∧ IsQuotable file.toList

instance (clause : Clause) : Decidable clause.IsWritable :=
  match clause with
  | bare _ => inferInstanceAs (Decidable (IsWord _))
  | located names _ =>
    have : Decidable (∀ name ∈ names, IsWord name.toList) := List.decidableBAll _ names
    inferInstanceAs (Decidable (_ ∧ _ ∧ _))
  | filed names _ =>
    have : Decidable (∀ name ∈ names, IsWord name.toList) := List.decidableBAll _ names
    inferInstanceAs (Decidable (_ ∧ _ ∧ _))

/-- A declaration with names is read up to the end of where they come from. -/
theorem parse_of_source {source : List Char} (hne : names ≠ [])
    (hnames : ∀ name ∈ names, IsWord name.toList)
    (hspace : skip (' ' :: source) = some ((), source))
    (hsource : (located names <$> addressLiteral <|> filed names <$> stringLiteral) source =
      some (clause, rest)) :
    Clause.parse ("import ".toList ++ ((", ".intercalate names).toList ++
      (" from ".toList ++ source))) = some (clause, rest) := by
  have hfrom : keyword "from" ("from".toList ++ ' ' :: source) = some ((), ' ' :: source) :=
    keyword_append _ (stops_cons (by decide) _)
  have hskip : skip (" from ".toList ++ source) = some ((), "from".toList ++ ' ' :: source) :=
    skip_space (by decide) _
  have hlist : separated word ((", ".intercalate names).toList ++ (" from ".toList ++ source)) =
      some (names, " from ".toList ++ source) :=
    separated_word hne hnames (stops_cons (by decide) _) (symbol_of_skip rfl hskip (by decide))
  have hsourced : sourced ((", ".intercalate names).toList ++ (" from ".toList ++ source)) =
      some (clause, rest) := by
    rw [sourced, bind_of_some hlist, bind_of_some hskip, bind_of_some hfrom, bind_of_some hspace]
    exact hsource
  have hstart : skip (' ' :: ((", ".intercalate names).toList ++ (" from ".toList ++ source))) =
      some ((), (", ".intercalate names).toList ++ (" from ".toList ++ source)) := by
    obtain ⟨name, more, rfl⟩ := List.exists_cons_of_ne_nil hne
    obtain ⟨c, tail, heq, hc⟩ := (hnames name (.head _)).exists_cons
    rw [toList_intercalate, heq]
    exact skip_space hc _
  have himport (s : List Char) :
      keyword "import" ("import".toList ++ ' ' :: s) = some ((), ' ' :: s) :=
    keyword_append _ (stops_cons (by decide) s)
  change Clause.parse ("import".toList ++
    ' ' :: ((", ".intercalate names).toList ++ (" from ".toList ++ source))) = _
  rw [Clause.parse, bind_of_some (himport _), bind_of_some hstart]
  exact orElse_of_some hsourced

/-- A bare declaration is read whatever comes after its quote. -/
theorem parse_bareText {name : String} (h : IsWord name.toList) (rest : List Char) :
    Clause.parse ((bare name).text.toList ++ rest) = some (bare name, rest) := by
  have hliteral := stringLiteral_of_isQuotable h.isQuotable rest
  rw [String.ofList_toList] at hliteral
  have hsourced : sourced ('"' :: (name.toList ++ '"' :: rest)) = none :=
    bind_of_none (bind_of_none (word_of_not (by decide) _))
  have htext : (bare name).text.toList ++ rest =
      "import".toList ++ ' ' :: '"' :: (name.toList ++ '"' :: rest) := by
    simp [text, Import.bareText]
  rw [htext]
  refine (bind_of_some (keyword_append "import" (stops_cons (by decide) _))).trans ?_
  rw [bind_of_some (skip_space (by decide) _), orElse_of_none hsourced]
  exact map_eq_some_iff.2 ⟨name, hliteral, rfl⟩

/-- A declaration is read as it is written. -/
theorem parse_text (h : clause.IsWritable) (hstop : Stops Char.isAlphanum rest) :
    Clause.parse (clause.text.toList ++ rest) = some (clause, rest) := by
  cases clause with
  | bare name => exact parse_bareText h rest
  | located names address =>
      obtain ⟨hne, hnames, haddress⟩ := h
      have hspace : skip (' ' :: (address.toList ++ rest)) = some ((), address.toList ++ rest) := by
        obtain ⟨c, more, heq, -⟩ := haddress.exists_cons
        rw [heq]
        exact skip_space (by decide) _
      have hread := parse_of_source hne hnames hspace (orElse_of_some
        (map_eq_some_iff.2 ⟨address, addressLiteral_append haddress hstop, rfl⟩))
      simpa only [text, String.toList_append, List.append_assoc] using hread
  | filed names file =>
      obtain ⟨hne, hnames, hfile⟩ := h
      have hliteral := stringLiteral_of_isQuotable hfile rest
      rw [String.ofList_toList] at hliteral
      have haddress : addressLiteral ('"' :: (file.toList ++ '"' :: rest)) = none :=
        bind_of_none (exactly_of_ne rfl (by decide) _)
      have hsource : (located names <$> addressLiteral <|> filed names <$> stringLiteral)
          ('"' :: (file.toList ++ '"' :: rest)) = some (filed names file, rest) := by
        rw [orElse_of_none (map_of_none haddress)]
        exact map_eq_some_iff.2 ⟨file, hliteral, rfl⟩
      have hread := parse_of_source hne hnames (skip_space (by decide) _) hsource
      have htext : (filed names file).text.toList ++ rest =
          "import ".toList ++ ((", ".intercalate names).toList ++
            (" from ".toList ++ '"' :: (file.toList ++ '"' :: rest))) := by
        simp [text]
      rwa [htext]

end Clause

end Source

end Interaction
