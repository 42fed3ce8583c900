import Interaction.Proofs.Source.Locality

/-!
# Words and literals in front of a rest

What a word, a keyword, an address or a string literal reads, said without the parsers: a word ends
before the first character that no word has, and a literal with its last quote.
-/

namespace Interaction

namespace Source

open Source.Parser Lexeme

/-- ASCII letters, digits and underscores, at least one, of which the first is no digit. -/
def IsWord : List Char → Prop
  | [] => False
  | c :: more => isWordStart c = true ∧ ∀ d ∈ more, isWordChar d = true

instance (s : List Char) : Decidable (IsWord s) :=
  match s with
  | [] => isFalse id
  | c :: more =>
    have := List.decidableBAll (isWordChar · = true) more
    inferInstanceAs (Decidable (isWordStart c = true ∧ ∀ d ∈ more, isWordChar d = true))

/-- An identifier. -/
structure Word where
  text : String
  isWord : IsWord text.toList

/-- `0x` and ASCII letters or digits, at least one. -/
def IsAddress (s : List Char) : Prop :=
  s.take 2 = ['0', 'x'] ∧ s.drop 2 ≠ [] ∧ ∀ c ∈ s.drop 2, c.isAlphanum = true

instance (s : List Char) : Decidable (IsAddress s) :=
  have := List.decidableBAll (Char.isAlphanum · = true) (s.drop 2)
  inferInstanceAs (Decidable (_ ∧ _ ∧ _))

variable {s x rest rest' : List Char} {c : Char} {w text : String}

theorem solid_of_isWordStart (h : isWordStart c = true) : Solid c := by
  constructor
  · rw [Bool.eq_false_iff]
    intro hspace
    simp only [isSpace, Bool.or_eq_true, beq_iff_eq] at hspace
    rcases hspace with ((rfl | rfl) | rfl) | rfl <;> exact absurd h (by decide)
  · rintro rfl
    exact absurd h (by decide)

theorem IsWord.exists_cons (h : IsWord s) : ∃ c more, s = c :: more ∧ Solid c := by
  cases s with
  | nil => exact h.elim
  | cons c more => exact ⟨c, more, rfl, solid_of_isWordStart h.1⟩

theorem IsWord.isWordChar (h : IsWord s) :
    ∀ c ∈ s, isWordChar c = true := by
  cases s with
  | nil => exact h.elim
  | cons first more =>
      refine List.forall_mem_cons.2 ⟨?_, h.2⟩
      have hstart := h.1
      rw [isWordStart, Bool.or_eq_true] at hstart
      rw [isWordChar, Char.isAlphanum, Bool.or_eq_true, Bool.or_eq_true]
      exact hstart.imp_left .inl

theorem IsAddress.exists_cons (h : IsAddress s) :
    ∃ c more, s = '0' :: 'x' :: c :: more ∧ c.isAlphanum = true ∧
      ∀ d ∈ more, d.isAlphanum = true := by
  obtain ⟨hmark, hne, hall⟩ := h
  obtain ⟨c, more, hdrop⟩ := List.exists_cons_of_ne_nil hne
  rw [hdrop] at hall
  refine ⟨c, more, ?_, hall c (.head _), fun d hd => hall d (.tail _ hd)⟩
  rw [← List.take_append_drop 2 s, hmark, hdrop]
  rfl

namespace Lexeme

theorem word_eq_some_iff :
    word s = some (w, rest) ↔ IsWord w.toList ∧ s = w.toList ++ rest ∧ Stops isWordChar rest := by
  constructor
  · intro h
    obtain ⟨c, mid, hone, h⟩ := bind_eq_some_iff.1 h
    obtain ⟨more, after, hrun, he⟩ := bind_eq_some_iff.1 h
    obtain ⟨rfl, hstart⟩ := one_eq_some_iff.1 hone
    obtain ⟨rfl, hall, hstop⟩ := run_eq_some_iff.1 hrun
    cases he
    rw [String.toList_ofList]
    exact ⟨⟨hstart, hall⟩, rfl, hstop⟩
  · rintro ⟨hword, rfl, hstop⟩
    generalize hw : w.toList = cs at hword
    cases cs with
    | nil => exact hword.elim
    | cons c more =>
        refine bind_eq_some_iff.2 ⟨c, more ++ rest, one_eq_some_iff.2 ⟨rfl, hword.1⟩, ?_⟩
        refine bind_eq_some_iff.2 ⟨more, rest, run_eq_some_iff.2 ⟨rfl, hword.2, hstop⟩, ?_⟩
        rw [← hw, String.ofList_toList]
        rfl

theorem word_text (w : Word) (h : Stops isWordChar rest) :
    word (w.text.toList ++ rest) = some (w.text, rest) :=
  word_eq_some_iff.2 ⟨w.isWord, rfl, h⟩

theorem word_append (h : word (x ++ rest) = some (w, rest)) (hhead : rest'.head? = rest.head?) :
    word (x ++ rest') = some (w, rest') := by
  obtain ⟨hword, heq, hstop⟩ := word_eq_some_iff.1 h
  rw [List.append_cancel_right_eq] at heq
  exact word_eq_some_iff.2 ⟨hword, heq ▸ rfl, hstop.of_head? hhead⟩

theorem notAhead_eq_some_iff {test : Char → Bool} :
    notAhead test s = some ((), rest) ↔ s = rest ∧ Stops test rest := by
  cases s with
  | nil =>
      constructor
      · rintro ⟨⟩
        exact ⟨rfl, stops_nil⟩
      · rintro ⟨rfl, -⟩
        rfl
  | cons c s =>
      rw [notAhead]
      split
      next hc =>
        refine iff_of_false (fun h => by cases h) ?_
        rintro ⟨rfl, hstop⟩
        rw [hstop c rfl] at hc
        cases hc
      next hc =>
        constructor
        · rintro ⟨⟩
          exact ⟨rfl, stops_cons (Bool.eq_false_iff.2 hc) s⟩
        · rintro ⟨rfl, -⟩
          rfl

theorem keyword_eq_some_iff :
    keyword text s = some ((), rest) ↔ s = text.toList ++ rest ∧ Stops isWordChar rest := by
  constructor
  · intro h
    obtain ⟨⟨⟩, mid, htext, hend⟩ := bind_eq_some_iff.1 h
    obtain ⟨rfl, hstop⟩ := notAhead_eq_some_iff.1 hend
    exact ⟨exactly_eq_some_iff.1 htext, hstop⟩
  · rintro ⟨rfl, hstop⟩
    exact bind_eq_some_iff.2
      ⟨(), rest, exactly_eq_some_iff.2 rfl, notAhead_eq_some_iff.2 ⟨rfl, hstop⟩⟩

theorem keyword_append (text : String) (h : Stops isWordChar rest) :
    keyword text (text.toList ++ rest) = some ((), rest) :=
  keyword_eq_some_iff.2 ⟨rfl, h⟩

/-- Where another word stands, a keyword does not. -/
theorem keyword_of_word (h : word s = some (w, rest)) (htext : IsWord text.toList)
    (hne : w ≠ text) : keyword text s = none := by
  by_contra hsome
  obtain ⟨⟨⟨⟩, after⟩, hkeyword⟩ := Option.ne_none_iff_exists'.1 hsome
  obtain ⟨hs, hstop⟩ := keyword_eq_some_iff.1 hkeyword
  have hword := word_eq_some_iff.2 ⟨htext, hs, hstop⟩
  rw [h] at hword
  exact hne (Prod.mk.inj (Option.some.inj hword)).1

/-- An address ends before the first character that is no letter or digit. -/
theorem addressLiteral_append (hw : IsAddress w.toList) (hstop : Stops Char.isAlphanum rest) :
    addressLiteral (w.toList ++ rest) = some (w, rest) := by
  obtain ⟨c, more, hcs, hc, hmore⟩ := hw.exists_cons
  rw [hcs]
  refine bind_eq_some_iff.2 ⟨(), c :: (more ++ rest), rfl, ?_⟩
  refine bind_eq_some_iff.2 ⟨c, more ++ rest, one_eq_some_iff.2 ⟨rfl, hc⟩, ?_⟩
  refine bind_eq_some_iff.2 ⟨more, rest, run_eq_some_iff.2 ⟨rfl, hmore, hstop⟩, ?_⟩
  rw [← hcs, String.ofList_toList]
  rfl

/-- A string literal ends with its quote whatever follows. -/
theorem quoted_append {raw : List Char} (h : quoted (x ++ rest) = some (raw, rest))
    (rest' : List Char) : quoted (x ++ rest') = some (raw, rest') := by
  generalize hs : x ++ rest = s at h
  fun_induction quoted s generalizing x raw with
  | case1 => cases h
  | case2 s =>
      cases h
      rw [← List.singleton_append, List.append_cancel_right_eq] at hs
      subst hs
      rfl
  | case3 => cases h
  | case4 c s ih =>
      obtain ⟨⟨found, after⟩, hfound, he⟩ := Option.map_eq_some_iff.1 h
      obtain ⟨rfl, rfl⟩ := Prod.mk.inj he
      obtain ⟨y, rfl⟩ := (advances_quoted hfound).1
      rw [← List.cons_append, ← List.cons_append, List.append_cancel_right_eq] at hs
      subst hs
      rw [List.cons_append, List.cons_append, quoted, ih rfl hfound]
      rfl
  | case5 c s hquote hbreak hslash ih =>
      obtain ⟨⟨found, after⟩, hfound, he⟩ := Option.map_eq_some_iff.1 h
      obtain ⟨rfl, rfl⟩ := Prod.mk.inj he
      obtain ⟨y, rfl⟩ := (advances_quoted hfound).1
      rw [← List.cons_append, List.append_cancel_right_eq] at hs
      subst hs
      have hc : c ≠ '\\' := by
        intro hc
        cases hy : y ++ after with
        | nil =>
            rw [hy] at hfound
            cases hfound
        | cons e z => exact hslash e z hc hy
      rw [List.cons_append, quoted, ih rfl hfound]
      · rfl
      · exact hquote
      · exact hbreak
      · exact fun _ _ heq => absurd heq hc

theorem stringLiteral_append (h : stringLiteral (x ++ rest) = some (w, rest))
    (rest' : List Char) : stringLiteral (x ++ rest') = some (w, rest') := by
  obtain ⟨⟨⟩, x₁, x₂, rfl, hquote, h⟩ := split_of_bind (Consumes.exactly _)
    (fun _ => .bind advances_quoted.consumes fun _ => .pure _) h
  obtain ⟨raw, mid, hquoted, he⟩ := bind_eq_some_iff.1 h
  cases he
  have hfirst := exactly_eq_some_iff.1 hquote
  rw [List.append_cancel_right_eq] at hfirst
  subst hfirst
  rw [List.append_assoc]
  exact bind_eq_some_iff.2
    ⟨(), _, exactly_append _ _, bind_eq_some_iff.2 ⟨raw, rest', quoted_append hquoted rest', rfl⟩⟩

/-! ### What no lexeme starts with -/

theorem word_of_not (h : isWordStart c = false) (s : List Char) : word (c :: s) = none :=
  bind_of_none (one_of_not h s)

theorem exists_word (h : isWordStart c = true) (s : List Char) :
    ∃ w rest, word (c :: s) = some (w, rest) :=
  ⟨_, _, bind_eq_some_iff.2 ⟨c, s, one_eq_some_iff.2 ⟨rfl, h⟩,
    bind_eq_some_iff.2 ⟨_, _, rfl, rfl⟩⟩⟩

theorem keyword_of_ne {k : Char} {tail : List Char} (htext : text.toList = k :: tail) (h : c ≠ k)
    (s : List Char) : keyword text (c :: s) = none :=
  bind_of_none (exactly_of_ne htext h s)

theorem stringLiteral_of_ne (h : c ≠ '"') (s : List Char) : stringLiteral (c :: s) = none :=
  bind_of_none (exactly_of_ne rfl h s)

end Lexeme

end Source

end Interaction
