import Interaction.Proofs.Source.Lexeme
import Interaction.Source.Chunk

/-!
# Every place of a text holds an item

Whatever the characters that are left, an item can be read from them: if nothing else can, a single
character is one. The item takes at least one character and leaves an end of the text, so a text is
read to its end whatever it holds.
-/

namespace Interaction

namespace Source

open Source.Parser Lexeme

variable {α : Type} {s rest : List Char}

namespace TypeText

theorem consumes_space : Consumes space :=
  .bind (.run _) fun _ => .pure _

theorem consumes_spaced (text : String) : Consumes (spaced text) :=
  .bind consumes_space fun _ => .exactly _

theorem consumes_qualified : Consumes qualified :=
  .bind advances_word.consumes fun _ => .bind (.many (.bind (.exactly _) fun _ =>
    advances_word.consumes)) fun _ => .pure _

theorem consumes_authorization : Consumes authorization :=
  .bind (.exactly _) fun _ => .bind (consumes_spaced _) fun _ => .bind (.run _) fun _ =>
    .bind (.exactly _) fun _ => consumes_space

theorem consumes_commas {item : Parser Unit} (h : Consumes item) : Consumes (commas item) :=
  .bind h fun _ => .bind (.many (.bind (consumes_spaced _) fun _ =>
    .bind consumes_space fun _ => h)) fun _ => .pure _

theorem consumes_array {inner : Parser Unit} (h : Consumes inner) : Consumes (array inner) :=
  .bind (.exactly _) fun _ => .bind consumes_space fun _ => .bind h fun _ =>
    .bind consumes_space fun _ => .bind (.maybe (.bind (.exactly _) fun _ =>
      .bind consumes_space fun _ => .bind (Advances.one _).consumes fun _ =>
        .bind (.run _) fun _ => consumes_space)) fun _ => .exactly _

theorem consumes_dictionary {inner : Parser Unit} (h : Consumes inner) :
    Consumes (dictionary inner) :=
  .bind (.exactly _) fun _ => .bind consumes_space fun _ => .bind h fun _ =>
    .bind (consumes_spaced _) fun _ => .bind consumes_space fun _ => .bind h fun _ =>
      consumes_spaced _

theorem consumes_intersection : Consumes intersection :=
  .bind (.exactly _) fun _ => .bind consumes_space fun _ =>
    .bind (consumes_commas consumes_qualified) fun _ => consumes_spaced _

theorem consumes_nominal {inner : Parser Unit} (h : Consumes inner) : Consumes (nominal inner) :=
  .bind consumes_qualified fun _ => .bind (.maybe (.bind (consumes_spaced _) fun _ =>
    .bind consumes_space fun _ => .bind (consumes_commas h) fun _ => consumes_spaced _))
      fun _ => .pure _

theorem consumes_nested (depth : Nat) : Consumes (nested depth) := by
  induction depth with
  | zero => nofun
  | succ depth ih =>
      have halternatives : Consumes
          (array (nested depth) <|> dictionary (nested depth) <|> intersection <|>
            nominal (nested depth)) :=
        .orElse (consumes_array ih) <| .orElse (consumes_dictionary ih) <|
          .orElse consumes_intersection (consumes_nominal ih)
      exact .bind (.maybe consumes_authorization) fun _ =>
        .bind (.maybe (.bind (.exactly _) fun _ => consumes_space)) fun _ =>
          .bind halternatives fun _ => .bind (.run _) fun _ => .pure _

end TypeText

theorem consumes_typeText : Consumes typeText := by
  intro s a rest h
  obtain ⟨found, hfound, he⟩ := Option.map_eq_some_iff.1 h
  cases he
  exact (TypeText.consumes_nested _).matched hfound

theorem Parameter.advances_parse : Advances Parameter.parse :=
  .bind advances_word fun _ => .bind consumes_skip fun _ =>
    .bind (.maybe advances_word.consumes) fun _ =>
      .bind (.bind consumes_skip fun _ => .exactly _) fun _ => .bind consumes_skip fun _ =>
        .bind consumes_typeText fun _ => .pure _

namespace Entry

theorem advances_parseTransaction : Advances parseTransaction :=
  .bind (advances_keyword (by decide)) fun _ => .bind (.maybe (.bind consumes_skip fun _ =>
    (advances_enclosed Parameter.advances_parse (by decide)).consumes)) fun _ =>
      .bind consumes_skip fun _ => .bind (.ahead _) fun _ => .pure _

theorem advances_parseMain : Advances parseMain :=
  .bind (advances_keyword (by decide)) fun _ => .bind consumes_skip fun _ =>
    .bind (advances_keyword (by decide)).consumes fun _ => .bind consumes_skip fun _ =>
      .bind (advances_enclosed Parameter.advances_parse (by decide)).consumes fun _ =>
        .bind (.maybe (.bind (.bind consumes_skip fun _ => .exactly _) fun _ =>
          .bind consumes_skip fun _ => consumes_typeText)) fun _ => .pure _

theorem advances_parse : Advances Entry.parse :=
  .orElse advances_parseTransaction advances_parseMain

end Entry

namespace Field

theorem advances_parseParameter {inner : Parser Field} (h : Advances inner) :
    Advances (parseParameter inner) :=
  .bind (.exactly (by decide)) fun _ => .bind consumes_skip fun _ =>
    (advances_enclosed h (by decide)).consumes

theorem advances_parse (origin : List Char) (depth : Nat) : Advances (parse origin depth) := by
  induction depth with
  | zero => nofun
  | succ depth ih =>
      have hget : Consumes (get : Parser (List Char)) := by
        intro s a rest h
        cases h
        exact List.suffix_rfl
      have hvalue (line : Nat) (name : String) : Consumes
          (parseText line name <|>
            parameters line name <$> enclosed "[" (parseParameter (parse origin depth)) "]") :=
        .orElse (.map advances_stringLiteral.consumes) <|
          .map (advances_enclosed (advances_parseParameter ih) (by decide)).consumes
      exact .bind_right hget fun _ => .bind advances_word fun _ =>
        .bind (.bind consumes_skip fun _ => .exactly _) fun _ => .bind consumes_skip fun _ =>
          hvalue _ _

end Field

theorem advances_pragma : Advances pragma := by
  intro s a rest h
  obtain ⟨origin, mid, hget, h⟩ := bind_eq_some_iff.1 h
  cases hget
  have hafter : Advances (do
      exactly pragmaWord
      skip
      enclosed "(" (Field.parse s (s.length + 1)) ")") :=
    .bind (.exactly (by decide)) fun _ => .bind consumes_skip fun _ =>
      (advances_enclosed (Field.advances_parse _ _) (by decide)).consumes
  exact hafter h

namespace Tag

theorem lineEnd_suffix (s : List Char) : (lineEnd s).2 <:+ s := by
  fun_induction lineEnd s with
  | case1 => exact List.suffix_rfl
  | case2 => exact List.suffix_rfl
  | case3 => exact List.suffix_rfl
  | case4 c s hbreak hclose found ih => exact ih.trans (List.suffix_cons c s)

theorem consumes_parse (origin : List Char) : Consumes (parse origin) := by
  intro s a rest h
  obtain ⟨here, mid, hget, h⟩ := bind_eq_some_iff.1 h
  cases hget
  obtain ⟨_, afterAt, hat, h⟩ := bind_eq_some_iff.1 h
  obtain ⟨key, afterKey, hkey, h⟩ := bind_eq_some_iff.1 h
  obtain ⟨_, value, hvalue, h⟩ := bind_eq_some_iff.1 h
  cases h
  exact (((lineEnd_suffix value).trans (Consumes.run _ hvalue)).trans (advances_word hkey).1).trans
    (Consumes.exactly _ hat)

theorem consumes_between : Consumes between := by
  intro s a rest h
  unfold between at h
  split at h
  · cases h
  · cases h
  · cases h
    exact (List.dropWhile_suffix _).trans (List.suffix_cons _ _)

theorem advances_block : Advances block := by
  intro s a rest h
  unfold block at h
  split at h
  next mid =>
    split at h
    · have hmany : Consumes
          (many (some <$> parse ('/' :: '*' :: '*' :: mid) <|> (fun _ => none) <$> between)) :=
        .many (.orElse (.map (consumes_parse _)) (.map consumes_between))
      obtain ⟨found, after, hfound, h⟩ := bind_eq_some_iff.1 h
      obtain ⟨_, last, hlast, h⟩ := bind_eq_some_iff.1 h
      cases h
      have hend : rest <:+ mid := (Consumes.exactly _ hlast).trans (hmany hfound)
      refine ⟨hend.trans ⟨['/', '*', '*'], rfl⟩, ?_⟩
      have hlength := hend.length_le
      simp only [List.length_cons]
      omega
    · cases h
  next => cases h

end Tag

namespace Clause

theorem advances_sourced : Advances sourced :=
  .bind (advances_separated advances_word) fun _ => .bind consumes_skip fun _ =>
    .bind (advances_keyword (by decide)).consumes fun _ => .bind consumes_skip fun _ =>
      .orElse (.map advances_addressLiteral.consumes) (.map advances_stringLiteral.consumes)

theorem advances_parse : Advances Clause.parse :=
  .bind (advances_keyword (by decide)) fun _ => .bind consumes_skip fun _ =>
    .orElse advances_sourced.consumes (.map advances_stringLiteral.consumes)

end Clause

namespace Item

theorem advances_parse : Advances Item.parse :=
  have hmember : Advances member := .bind (.exactly (by decide)) fun _ =>
    .bind consumes_skip fun _ => .bind advances_word.consumes fun _ => .pure _
  .orElse (.map advances_blank) <| .orElse (.map Tag.advances_block) <|
    .orElse (.map advances_pragma) <| .orElse (.map (.exactly (by decide))) <|
      .orElse (.map Clause.advances_parse) <| .orElse (.map hmember) <|
        .orElse (.map Entry.advances_parse) <| .orElse (.map advances_stringLiteral) <|
          .orElse (.map advances_word) (.map (.one _))

theorem orElse_ne_none {p q : Parser α} (h : q s ≠ none) : (p <|> q) s ≠ none := by
  change (p s <|> q s) ≠ none
  cases p s with
  | none => exact h
  | some found => exact Option.some_ne_none found

/-- The last resort is a single character. -/
theorem parse_ne_none (c : Char) (s : List Char) : Item.parse (c :: s) ≠ none := by
  iterate 9 apply orElse_ne_none
  exact Option.some_ne_none (Item.plain, s)

/-- There is an item at every place of a text but its end. -/
theorem exists_parse_eq_some (c : Char) (s : List Char) :
    ∃ item rest, Item.parse (c :: s) = some (item, rest) ∧ rest <:+ s := by
  obtain ⟨⟨item, rest⟩, h⟩ := Option.ne_none_iff_exists'.1 (parse_ne_none c s)
  obtain ⟨hsuffix, hshorter⟩ := advances_parse h
  refine ⟨item, rest, h, ?_⟩
  rcases List.suffix_cons_iff.1 hsuffix with rfl | hmore
  · exact absurd hshorter (Nat.lt_irrefl _)
  · exact hmore

end Item

end Source

end Interaction
