import Interaction.Proofs.Source.Item
import Mathlib.Data.List.TakeWhile

/-!
# Reading does not look far ahead

What is read at a place often depends on the text that is read and on nothing after it, or on the
one character after it. So the same is read when other text follows. The exception is the comment
`/**/`: whether it is one depends on what comes after it, so it is left out here.
-/

namespace Interaction

namespace Source

open Source.Parser Lexeme

/-- Whether a text is free of the comment `/**/`. -/
def NoEmptyComment (s : List Char) : Prop :=
  ¬ ['/', '*', '*', '/'] <:+: s

instance (s : List Char) : Decidable (NoEmptyComment s) :=
  inferInstanceAs (Decidable (¬ _))

variable {s v x y z rest rest' : List Char} {c d k : Char}

theorem NoEmptyComment.left (h : NoEmptyComment (x ++ y)) : NoEmptyComment x :=
  fun hx => h (hx.trans (List.prefix_append x y).isInfix)

theorem NoEmptyComment.right (h : NoEmptyComment (x ++ y)) : NoEmptyComment y :=
  fun hy => h (hy.trans (List.suffix_append x y).isInfix)

/-- A character that starts no blank. -/
def Solid (c : Char) : Prop :=
  isSpace c = false ∧ c ≠ '/'

instance (c : Char) : Decidable (Solid c) :=
  inferInstanceAs (Decidable (_ ∧ _))

namespace Parser

variable {α β : Type} {a : α} {b : β} {p : Parser α}

/-- What is read of a text, and what is left of it. -/
theorem split_of_read (hp : Consumes p) (h : p (x ++ rest) = some (a, z ++ rest)) :
    ∃ y, x = y ++ z ∧ p (y ++ (z ++ rest)) = some (a, z ++ rest) := by
  obtain ⟨y, hy⟩ := hp h
  rw [← List.append_assoc, List.append_cancel_right_eq] at hy
  subst hy
  rw [List.append_assoc] at h
  exact ⟨y, rfl, h⟩

/-- The two parts of what is read by a sequence. -/
theorem split_of_bind {q : α → Parser β} (hp : Consumes p) (hq : ∀ a, Consumes (q a))
    (h : (p >>= q) (x ++ rest) = some (b, rest)) :
    ∃ a x₁ x₂, x = x₁ ++ x₂ ∧ p (x₁ ++ (x₂ ++ rest)) = some (a, x₂ ++ rest) ∧
      q a (x₂ ++ rest) = some (b, rest) := by
  obtain ⟨a, mid, hfirst, hnext⟩ := bind_eq_some_iff.1 h
  obtain ⟨x₂, rfl⟩ := hq a hnext
  obtain ⟨x₁, rfl, hread⟩ := split_of_read hp hfirst
  exact ⟨a, x₁, x₂, rfl, hread, hnext⟩

theorem bind_of_none {q : α → Parser β} (h : p s = none) : (p >>= q) s = none := by
  change (p s).bind _ = none
  rw [h, Option.bind_none]

theorem bind_of_some {q : α → Parser β} (h : p s = some (a, rest)) : (p >>= q) s = q a rest := by
  change (p s).bind _ = _
  rw [h, Option.bind_some]

theorem map_of_none {f : α → β} (h : p s = none) : (f <$> p) s = none := by
  change (p s).bind _ = none
  rw [h, Option.bind_none]

theorem orElse_of_none {q : Parser α} (h : p s = none) : (p <|> q) s = q s := by
  change (p s <|> q s) = q s
  rw [h]
  rfl

theorem orElse_of_some {q : Parser α} (h : p s = some (a, rest)) :
    (p <|> q) s = some (a, rest) :=
  orElse_eq_some_iff.2 (.inl h)

theorem maybe_of_none (h : p s = none) : maybe p s = some (none, s) :=
  maybe_eq_some_iff.2 (.inr ⟨h, rfl, rfl⟩)

theorem maybe_of_some (h : p s = some (a, rest)) : maybe p s = some (some a, rest) :=
  maybe_eq_some_iff.2 (.inl ⟨a, h, rfl⟩)

theorem one_of_not {test : Char → Bool} (h : test c = false) (s : List Char) :
    one test (c :: s) = none := by
  rw [one, h]
  rfl

theorem many_of_none (h : p s = none) : many p s = some ([], s) := by
  rw [many, h]

theorem many_of_some (h : p s = some (a, rest)) (hshorter : rest.length < s.length) :
    many p s = (many p rest).map fun found => (a :: found.1, found.2) := by
  rw [many, h]
  exact if_pos hshorter

theorem exactly_append (text : String) (rest : List Char) :
    exactly text (text.toList ++ rest) = some ((), rest) :=
  exactly_eq_some_iff.2 rfl

theorem exactly_cons {text : String} (htext : text.toList = [c]) (rest : List Char) :
    exactly text (c :: rest) = some ((), rest) :=
  exactly_eq_some_iff.2 (by rw [htext, List.singleton_append])

theorem exactly_of_ne {text : String} {tail : List Char} (htext : text.toList = k :: tail)
    (h : c ≠ k) (v : List Char) : exactly text (c :: v) = none := by
  rw [exactly, htext, after?, if_neg h.symm, Option.map_none]

/-- Whether a text has no character at its front that passes a test. -/
def Stops (test : Char → Bool) (s : List Char) : Prop :=
  ∀ c ∈ s.head?, test c = false

theorem stops_nil {test : Char → Bool} : Stops test [] := by
  rintro c ⟨⟩

theorem stops_cons {test : Char → Bool} (h : test c = false) (s : List Char) :
    Stops test (c :: s) := by
  rintro d ⟨⟩
  exact h

instance (test : Char → Bool) (s : List Char) : Decidable (Stops test s) :=
  match s with
  | [] => isTrue stops_nil
  | c :: s => decidable_of_iff (test c = false) ⟨fun h => stops_cons h s, fun h => h c rfl⟩

theorem Stops.of_head? {test : Char → Bool} (h : Stops test rest)
    (hhead : rest'.head? = rest.head?) : Stops test rest' := by
  rwa [Stops, hhead]

/-- A run is all that passes the test, up to what does not. -/
theorem run_eq_some_iff {test : Char → Bool} : run test s = some (x, rest) ↔
    s = x ++ rest ∧ (∀ c ∈ x, test c = true) ∧ Stops test rest := by
  constructor
  · intro h
    obtain ⟨rfl, rfl⟩ := Prod.mk.inj (Option.some.inj h)
    refine ⟨List.takeWhile_append_dropWhile.symm, fun c hc => List.mem_takeWhile_imp hc, ?_⟩
    intro c hc
    have hstop := List.head?_dropWhile_not test s
    rw [Option.mem_def.1 hc] at hstop
    simpa using hstop
  · rintro ⟨rfl, hall, hstop⟩
    have hrest : rest.takeWhile test = [] ∧ rest.dropWhile test = rest := by
      cases rest with
      | nil => exact ⟨rfl, rfl⟩
      | cons c rest =>
          have hc : ¬ test c = true := by
            rw [hstop c rfl]
            nofun
          exact ⟨List.takeWhile_cons_of_neg hc, List.dropWhile_cons_of_neg hc⟩
    rw [run, List.takeWhile_append_of_pos hall, List.dropWhile_append_of_pos hall, hrest.1, hrest.2,
      List.append_nil]

end Parser

/-! ### Comments -/

theorem length_afterClose? (h : afterClose? s = some rest) : rest.length + 2 ≤ s.length := by
  fun_induction afterClose? s with
  | case1 => cases h
  | case2 s =>
      cases h
      exact Nat.le_refl _
  | case3 c s hopen ih =>
      have := ih h
      rw [List.length_cons]
      omega

theorem afterClose?_of_ne (h : c ≠ '*') (s : List Char) : afterClose? (c :: s) = afterClose? s := by
  rw [afterClose?]
  intro _ hc
  exact absurd hc h

theorem afterClose?_of_not_close (h : ¬ (c = '*' ∧ d = '/')) (s : List Char) :
    afterClose? (c :: d :: s) = afterClose? (d :: s) := by
  rw [afterClose?]
  rintro _ rfl heq
  exact h ⟨rfl, (List.cons.inj heq).1⟩

theorem namesVersion_of_not_close (h : ¬ (c = '*' ∧ d = '/')) (s : List Char) :
    namesVersion (c :: d :: s) =
      ("@f_version".toList.isPrefixOf (c :: d :: s) || namesVersion (d :: s)) := by
  rw [namesVersion]
  rintro _ rfl heq
  exact h ⟨rfl, (List.cons.inj heq).1⟩

/-- A text that is read up to a close has at least the two characters of it. -/
theorem exists_cons_of_afterClose? (h : afterClose? (x ++ rest) = some rest) :
    ∃ c d y, x = c :: d :: y := by
  have hlength := length_afterClose? h
  rw [List.length_append] at hlength
  match x with
  | [] => simp only [List.length_nil] at hlength; omega
  | [_] => simp only [List.length_singleton] at hlength; omega
  | c :: d :: y => exact ⟨c, d, y, rfl⟩

/-- A close that ends a text ends it whatever follows. -/
theorem afterClose?_append (h : afterClose? (x ++ rest) = some rest) (rest' : List Char) :
    afterClose? (x ++ rest') = some rest' := by
  induction x with
  | nil => exact absurd (exists_cons_of_afterClose? h) nofun
  | cons c x ih =>
      obtain ⟨_, d, y, heq⟩ := exists_cons_of_afterClose? h
      obtain ⟨rfl, rfl⟩ := List.cons.inj heq
      by_cases hclose : c = '*' ∧ d = '/'
      · obtain ⟨rfl, rfl⟩ := hclose
        have hy : y ++ rest = rest := Option.some.inj h
        rw [List.append_left_eq_self.1 hy]
        rfl
      · rw [List.cons_append, List.cons_append, afterClose?_of_not_close hclose] at h ⊢
        exact ih h

theorem mem_of_afterClose? (h : afterClose? (x ++ rest) = some rest) : '*' ∈ x := by
  by_contra hx
  have hskip : afterClose? (x ++ rest) = afterClose? rest := by
    clear h
    induction x with
    | nil => rfl
    | cons c x ih =>
        have hc : c ≠ '*' := fun heq => hx (heq ▸ .head _)
        rw [List.cons_append, afterClose?_of_ne hc, ih fun hmem => hx (.tail _ hmem)]
  have := length_afterClose? (hskip ▸ h)
  omega

/-- Whether a text starts with a word is decided before the first character that the word does not
have. -/
theorem isPrefixOf_append {word : List Char} (hmem : k ∈ x) (hword : k ∉ word)
    (rest rest' : List Char) : word.isPrefixOf (x ++ rest) = word.isPrefixOf (x ++ rest') := by
  induction x generalizing word with
  | nil => cases hmem
  | cons c x ih =>
      cases word with
      | nil => rfl
      | cons d word =>
          rw [List.cons_append, List.cons_append, List.isPrefixOf, List.isPrefixOf]
          by_cases hd : d = c
          · have hx : k ∈ x := by
              rcases List.mem_cons.1 hmem with rfl | hx
              · exact absurd (hd ▸ .head _) hword
              · exact hx
            rw [ih hx fun hk => hword (.tail _ hk)]
          · rw [beq_false_of_ne hd, Bool.false_and, Bool.false_and]

theorem namesVersion_append (h : afterClose? (x ++ rest) = some rest) (rest' : List Char) :
    namesVersion (x ++ rest') = namesVersion (x ++ rest) := by
  induction x with
  | nil => exact absurd (exists_cons_of_afterClose? h) nofun
  | cons c x ih =>
      obtain ⟨_, d, y, heq⟩ := exists_cons_of_afterClose? h
      obtain ⟨rfl, rfl⟩ := List.cons.inj heq
      by_cases hclose : c = '*' ∧ d = '/'
      · obtain ⟨rfl, rfl⟩ := hclose
        rfl
      · have hword : '*' ∉ "@f_version".toList := by decide
        have hprefix := isPrefixOf_append (mem_of_afterClose? h) hword rest' rest
        simp only [List.cons_append] at h hprefix ih ⊢
        rw [afterClose?_of_not_close hclose] at h
        rw [namesVersion_of_not_close hclose, namesVersion_of_not_close hclose, ih h, hprefix]

/-- Whether a comment is a block of metadata is decided inside it. -/
theorem blockAhead_append (hy : NoEmptyComment ('/' :: '*' :: y))
    (h : afterClose? (y ++ rest) = some rest) (rest' : List Char) :
    blockAhead ('/' :: '*' :: (y ++ rest')) = blockAhead ('/' :: '*' :: (y ++ rest)) := by
  obtain ⟨c, d, y, rfl⟩ := exists_cons_of_afterClose? h
  by_cases hc : c = '*'
  · subst hc
    have hd : d ≠ '/' := by
      rintro rfl
      exact hy ⟨[], y, rfl⟩
    have hinner : afterClose? (d :: y ++ rest) = some rest := by
      rwa [List.cons_append, List.cons_append,
        afterClose?_of_not_close fun hclose => hd hclose.2] at h
    change (namesVersion (d :: y ++ rest') && (afterClose? (d :: y ++ rest')).isSome) =
      (namesVersion (d :: y ++ rest) && (afterClose? (d :: y ++ rest)).isSome)
    rw [namesVersion_append hinner, afterClose?_append hinner, hinner, Option.isSome_some,
      Option.isSome_some]
  · have hno (more : List Char) : blockAhead ('/' :: '*' :: (c :: d :: y ++ more)) = false := by
      rw [blockAhead]
      intro _ heq
      exact hc (List.cons.inj (List.cons.inj (List.cons.inj heq).2).2).1
    rw [hno, hno]

/-- A comment goes to the end of its line, or is closed and no block of metadata. -/
theorem comment_eq_some_iff : comment s = some ((), rest) ↔
    (∃ y, s = '/' :: '/' :: (y ++ rest) ∧ (∀ c ∈ y, (c != '\n') = true) ∧ Stops (· != '\n') rest) ∨
      ∃ y, s = '/' :: '*' :: (y ++ rest) ∧ blockAhead s = false ∧
        afterClose? (y ++ rest) = some rest := by
  constructor
  · intro h
    unfold comment at h
    split at h
    next mid =>
      have hrun : run (· != '\n') mid = some (mid.takeWhile (· != '\n'), rest) := by
        rw [run, (Prod.mk.inj (Option.some.inj h)).2]
      obtain ⟨hmid, hline, hstop⟩ := run_eq_some_iff.1 hrun
      exact .inl ⟨_, by rw [← hmid], hline, hstop⟩
    next mid =>
      split at h
      · cases h
      next hblock =>
        obtain ⟨after, hafter, he⟩ := Option.map_eq_some_iff.1 h
        cases he
        obtain ⟨y, rfl⟩ := afterClose?_suffix hafter
        exact .inr ⟨y, rfl, Bool.not_eq_true _ ▸ hblock, hafter⟩
    next => cases h
  · rintro (⟨y, rfl, hline, hstop⟩ | ⟨y, rfl, hblock, hclose⟩)
    · have hrun := run_eq_some_iff.2 ⟨rfl, hline, hstop⟩
      rw [comment, (Prod.mk.inj (Option.some.inj hrun)).2]
    · rw [comment, hblock, hclose]
      rfl

/-- A comment ends where it does unless the character after it changes. -/
theorem comment_append (hx : NoEmptyComment x) (h : comment (x ++ rest) = some ((), rest))
    (hhead : rest'.head? = rest.head?) : comment (x ++ rest') = some ((), rest') := by
  rcases comment_eq_some_iff.1 h with ⟨y, hy, hline, hstop⟩ | ⟨y, hy, hblock, hclose⟩
  · rw [← List.cons_append, ← List.cons_append, List.append_cancel_right_eq] at hy
    subst hy
    exact comment_eq_some_iff.2 (.inl ⟨y, rfl, hline, hstop.of_head? hhead⟩)
  · rw [hy] at hblock
    rw [← List.cons_append, ← List.cons_append, List.append_cancel_right_eq] at hy
    subst hy
    refine comment_eq_some_iff.2 (.inr ⟨y, rfl, ?_, afterClose?_append hclose _⟩)
    rw [← hblock]
    exact blockAhead_append hx hclose _

/-! ### Blanks -/

theorem comment_of_ne (h : c ≠ '/') (s : List Char) : comment (c :: s) = none := by
  unfold comment
  split
  next heq => exact absurd (List.cons.inj heq).1 h
  next heq => exact absurd (List.cons.inj heq).1 h
  next => rfl

theorem blank_of_solid (h : Solid c) (s : List Char) : blank (c :: s) = none := by
  rw [blank, orElse_of_none (bind_of_none (one_of_not h.1 s)), comment_of_ne h.2]

theorem blank_of_isSpace (h : isSpace c = true) (s : List Char) : blank (c :: s) = some ((), s) :=
  orElse_of_some (bind_eq_some_iff.2 ⟨c, s, one_eq_some_iff.2 ⟨rfl, h⟩, rfl⟩)

theorem blank_append (hx : NoEmptyComment x) (h : blank (x ++ rest) = some ((), rest))
    (hhead : rest'.head? = rest.head?) : blank (x ++ rest') = some ((), rest') := by
  cases x with
  | nil => exact absurd (advances_blank h).2 (Nat.lt_irrefl _)
  | cons c x =>
      rcases orElse_eq_some_iff.1 h with hone | ⟨hnone, hcomment⟩
      · obtain ⟨d, mid, hd, he⟩ := bind_eq_some_iff.1 hone
        cases he
        obtain ⟨heq, hspace⟩ := one_eq_some_iff.1 hd
        obtain ⟨rfl, hmid⟩ := List.cons.inj heq
        rw [List.append_left_eq_self.1 hmid]
        exact blank_of_isSpace hspace rest'
      · have hc : c = '/' := by
          by_contra hc
          rw [List.cons_append, comment_of_ne hc] at hcomment
          cases hcomment
        subst hc
        have hspace : (one isSpace >>= fun _ => pure ()) ('/' :: x ++ rest') = none :=
          bind_of_none (one_of_not (by decide) _)
        rw [blank, orElse_of_none hspace]
        exact comment_append hx hcomment hhead

theorem many_blank_append {l : List Unit} (hx : NoEmptyComment x) (hc : Solid c)
    (h : many blank (x ++ c :: v) = some (l, c :: v)) (v' : List Char) :
    ∃ l', many blank (x ++ c :: v') = some (l', c :: v') := by
  generalize hs : x ++ c :: v = s at h
  fun_induction many blank s generalizing x l with
  | case1 s hnone =>
      cases h
      rw [List.append_left_eq_self.1 hs]
      exact ⟨[], many_of_none (blank_of_solid hc v')⟩
  | case2 s a mid hsome hshorter ih =>
      subst hs
      obtain ⟨⟨found, after⟩, hfound, he⟩ := Option.map_eq_some_iff.1 h
      obtain ⟨-, rfl⟩ := Prod.mk.inj he
      obtain ⟨y, hy⟩ := Consumes.many advances_blank.consumes hfound
      subst hy
      obtain ⟨x, rfl, hread⟩ := split_of_read advances_blank.consumes hsome
      obtain ⟨l', hmore⟩ := ih hx.right rfl hfound
      have hhead : (y ++ c :: v').head? = (y ++ c :: v).head? := by
        cases y <;> rfl
      have hfirst := blank_append hx.left hread hhead
      rw [List.append_assoc]
      refine ⟨() :: l', ?_⟩
      rw [many_of_some hfirst (advances_blank hfirst).2, hmore]
      rfl
  | case3 s a mid hsome hsame => exact absurd (advances_blank hsome).2 hsame

/-- What is skipped before a character that starts no blank is skipped whatever comes after it. -/
theorem skip_append (hx : NoEmptyComment x) (hc : Solid c)
    (h : skip (x ++ c :: v) = some ((), c :: v)) (v' : List Char) :
    skip (x ++ c :: v') = some ((), c :: v') := by
  obtain ⟨l, mid, hl, he⟩ := bind_eq_some_iff.1 h
  cases he
  obtain ⟨l', hl'⟩ := many_blank_append hx hc hl v'
  exact bind_eq_some_iff.2 ⟨l', _, hl', rfl⟩

end Source

end Interaction
