import Interaction.Proofs.Source.Enclosed

/-!
# Metadata is read by itself

A pragma is read up to its last bracket and a block of metadata up to its close. Neither depends on
what comes after it.
-/

namespace Interaction

namespace Source

open Source.Parser Lexeme

variable {n depth depth' : Nat} {s x rest origin origin' : List Char}

theorem isBracket_round : IsBracket ")" ')' :=
  ⟨rfl, by decide, by decide, by decide⟩

theorem isBracket_square : IsBracket "]" ']' :=
  ⟨rfl, by decide, by decide, by decide⟩

/-! ### Pragmas -/

namespace Field

theorem starts_parse (origin : List Char) (depth : Nat) :
    Starts (isWordStart · = true) (parse origin depth) := by
  cases depth with
  | zero => nofun
  | succ depth =>
      intro s field rest h
      obtain ⟨here, mid, hget, h⟩ := bind_eq_some_iff.1 h
      cases hget
      exact Starts.word.bind h

theorem items_parseParameter {p p' : Parser Field} (h : Items n p p') :
    Items n (parseParameter p) (parseParameter p') where
  closed := by
    have hlist {inner : Parser Field} (hinner : Advances inner) :
        Advances (enclosed "(" inner ")") := advances_enclosed hinner (by decide)
    refine .bind (.exactly _) (.exactly _)
      (fun _ => .bind consumes_skip fun _ => (hlist h.advances).consumes) fun _ _ => ?_
    refine .skip_bind (h.closed_enclosed isBracket_round) (hlist h.advances) ?_
    exact (Starts.exactly rfl (by decide)).bind
  advances := advances_parseParameter h.advances
  advances' := advances_parseParameter h.advances'
  starts := (Starts.exactly rfl (by decide)).bind
  starts' := (Starts.exactly rfl (by decide)).bind

/-- The value of a field, after its colon. -/
def value (line : Nat) (name : String) (inner : Parser Field) : Parser Field := do
  symbol ":"
  skip
  parseText line name <|> parameters line name <$> enclosed "[" (parseParameter inner) "]"

variable {p p' : Parser Field}

theorem advances_value (h : Advances p) (line : Nat) (name : String) :
    Advances (value line name p) :=
  have hlist : Advances (enclosed "[" (parseParameter p) "]") :=
    advances_enclosed (advances_parseParameter h) (by decide)
  .bind (advances_symbol (by decide)) fun _ => .bind consumes_skip fun _ =>
    .orElse (.map advances_stringLiteral.consumes) (.map hlist.consumes)

theorem closed_value (h : Items n p p') (line line' : Nat) (name name' : String) :
    Closed n (value line name p) (value line' name' p') := by
  have hitems := items_parseParameter h
  have hlist : Advances (enclosed "[" (parseParameter p) "]") :=
    advances_enclosed hitems.advances (by decide)
  have hadvances : Advances
      (parseText line name <|> parameters line name <$> enclosed "[" (parseParameter p) "]") :=
    .orElse (.map advances_stringLiteral) (.map hlist)
  refine .bind (.symbol rfl (by decide)) (advances_symbol (by decide)).consumes
    (fun _ => .bind consumes_skip fun _ => hadvances.consumes) fun _ _ => ?_
  refine .skip_bind ?_ hadvances ?_
  · intro x rest field hlength hx hread rest'
    rcases orElse_eq_some_iff.1 hread with htext | ⟨-, hread⟩
    · obtain ⟨w, htext, -⟩ := map_eq_some_iff.1 htext
      exact ⟨_, orElse_of_some (map_eq_some_iff.2 ⟨w, stringLiteral_append htext rest', rfl⟩)⟩
    · obtain ⟨found, hfound, -⟩ := map_eq_some_iff.1 hread
      obtain ⟨found', hfound'⟩ :=
        hitems.closed_enclosed isBracket_square hlength hx hfound rest'
      have htext : parseText line' name' (x ++ rest') = none := by
        cases x with
        | nil => exact absurd (hlist hfound).2 (Nat.lt_irrefl _)
        | cons c x =>
            have hopening : Starts (Eq '[') (enclosed "[" (parseParameter p) "]") :=
              (Starts.exactly rfl rfl).bind
            obtain ⟨d, v, heq, rfl⟩ := hopening hfound
            obtain ⟨rfl, -⟩ := List.cons.inj heq
            exact map_of_none (stringLiteral_of_ne (by decide) _)
      refine ⟨parameters line' name' found', ?_⟩
      rw [orElse_of_none htext]
      exact map_eq_some_iff.2 ⟨found', hfound', rfl⟩
  · exact .orElse (.map (Starts.exactly rfl (by decide)).bind)
      (.map (Starts.exactly rfl (by decide)).bind)

theorem closed_parse (origin origin' : List Char) (hn : n ≤ depth') :
    Closed n (parse origin depth) (parse origin' depth') := by
  induction depth generalizing n depth' with
  | zero => nofun
  | succ depth ih =>
      intro x rest field hlength hx hread rest'
      obtain ⟨here, _, hget, hread⟩ := bind_eq_some_iff.1 hread
      cases hget
      obtain ⟨name, y, z, rfl, hname, hvalue⟩ := split_of_bind advances_word.consumes
        (fun name => (advances_value (advances_parse origin depth) _ name).consumes) hread
      rw [List.length_append] at hlength
      have hy : y ≠ [] := by
        rintro rfl
        exact absurd (advances_word hname).2 (Nat.lt_irrefl _)
      have hz : z ≠ [] := by
        rintro rfl
        exact absurd (advances_value (advances_parse origin depth) _ name hvalue).2
          (Nat.lt_irrefl _)
      have hlength' := List.length_pos_iff.2 hy
      obtain ⟨depth', rfl⟩ : ∃ d, depth' = d + 1 := Nat.exists_eq_succ_of_ne_zero (by omega)
      have hhead : (z ++ rest').head? = (z ++ rest).head? := by
        rw [List.head?_append_of_ne_nil _ hz, List.head?_append_of_ne_nil _ hz]
      have hitems : Items z.length (parse origin depth) (parse origin' depth') :=
        ⟨ih (by omega), advances_parse _ _, advances_parse _ _, starts_parse _ _, starts_parse _ _⟩
      obtain ⟨field', hvalue'⟩ := closed_value hitems _
        (linesBetween origin' (y ++ (z ++ rest'))) name name (Nat.le_refl _) hx.right hvalue rest'
      rw [List.append_assoc]
      exact ⟨field', bind_eq_some_iff.2 ⟨_, _, rfl,
        bind_eq_some_iff.2 ⟨name, _, word_append hname hhead, hvalue'⟩⟩⟩

end Field

/-- A pragma is read whatever comes after it. -/
theorem pragma_append {fields : List Field} (hx : NoEmptyComment x)
    (h : pragma (x ++ rest) = some (fields, rest)) (rest' : List Char) :
    ∃ fields', pragma (x ++ rest') = some (fields', rest') := by
  obtain ⟨origin, mid, hget, h⟩ := bind_eq_some_iff.1 h
  cases hget
  have hitems : Items x.length (Field.parse (x ++ rest) ((x ++ rest).length + 1))
      (Field.parse (x ++ rest') ((x ++ rest').length + 1)) := by
    refine ⟨Field.closed_parse _ _ ?_, Field.advances_parse _ _, Field.advances_parse _ _,
      Field.starts_parse _ _, Field.starts_parse _ _⟩
    rw [List.length_append]
    omega
  have hlist : Advances
      (enclosed "(" (Field.parse (x ++ rest) ((x ++ rest).length + 1)) ")") :=
    advances_enclosed hitems.advances (by decide)
  have hclosed : Closed x.length
      (do exactly pragmaWord; skip
          enclosed "(" (Field.parse (x ++ rest) ((x ++ rest).length + 1)) ")")
      (do exactly pragmaWord; skip
          enclosed "(" (Field.parse (x ++ rest') ((x ++ rest').length + 1)) ")") := by
    refine .bind (.exactly _) (.exactly _)
      (fun _ => .bind consumes_skip fun _ => hlist.consumes) fun _ _ => ?_
    exact .skip_bind (hitems.closed_enclosed isBracket_round) hlist
      (Starts.exactly rfl (by decide)).bind
  obtain ⟨fields', h'⟩ := hclosed (Nat.le_refl _) hx h rest'
  exact ⟨fields', bind_eq_some_iff.2 ⟨_, _, rfl, h'⟩⟩

/-! ### Blocks -/

namespace Tag

theorem afterClose?_dropWhile {test : Char → Bool} (h : test '*' = false) (s : List Char) :
    afterClose? (s.dropWhile test) = afterClose? s := by
  induction s with
  | nil => rfl
  | cons c s ih =>
      rw [List.dropWhile_cons]
      split
      next hc =>
        have hne : c ≠ '*' := by
          rintro rfl
          rw [h] at hc
          cases hc
        rw [ih, afterClose?_of_ne hne]
      next => rfl

theorem afterClose?_lineEnd (s : List Char) : afterClose? (lineEnd s).2 = afterClose? s := by
  fun_induction lineEnd s with
  | case1 => rfl
  | case2 => rfl
  | case3 => rfl
  | case4 c s hbreak hclose found ih =>
      rw [afterClose?]
      · exact ih
      · exact hclose

/-- No tag goes over the close of its block. -/
theorem afterClose?_parse {tag : Tag} (h : parse origin s = some (tag, rest)) :
    afterClose? rest = afterClose? s ∧ rest.length < s.length := by
  obtain ⟨here, mid, hget, h⟩ := bind_eq_some_iff.1 h
  cases hget
  obtain ⟨⟨⟩, afterAt, hat, h⟩ := bind_eq_some_iff.1 h
  obtain ⟨key, afterKey, hkey, h⟩ := bind_eq_some_iff.1 h
  obtain ⟨blanks, value, hvalue, h⟩ := bind_eq_some_iff.1 h
  cases h
  have hlength : (lineEnd value).2.length < s.length :=
    Nat.lt_of_le_of_lt ((lineEnd_suffix value).trans (Consumes.run _ hvalue)).length_le
      (Nat.lt_of_lt_of_le (advances_word hkey).2 (Consumes.exactly _ hat).length_le)
  refine ⟨?_, hlength⟩
  obtain ⟨c, afterFirst, hone, hkey⟩ := bind_eq_some_iff.1 hkey
  obtain ⟨more, _, hmore, he⟩ := bind_eq_some_iff.1 hkey
  cases he
  obtain ⟨rfl, hstart⟩ := one_eq_some_iff.1 hone
  cases hmore
  cases hvalue
  have hc : c ≠ '*' := by
    rintro rfl
    exact absurd hstart (by decide)
  rw [exactly_eq_some_iff.1 hat]
  change _ = afterClose? ('@' :: c :: afterFirst)
  rw [afterClose?_lineEnd, afterClose?_dropWhile (by decide), afterClose?_dropWhile (by decide),
    afterClose?_of_ne (by decide), afterClose?_of_ne hc]

/-- One step through a block: a tag, or what lies before the next place a tag may start. -/
def step (origin : List Char) : Parser (Option Tag) :=
  some <$> parse origin <|> (fun _ => none) <$> between

/-- A step that does not stand at the close takes characters and does not go over it. -/
theorem exists_step (origin : List Char) (hopen : ¬ ∃ more, s = '*' :: '/' :: more)
    (hs : s ≠ []) :
    ∃ found mid, step origin s = some (found, mid) ∧ mid.length < s.length ∧
      afterClose? mid = afterClose? s := by
  cases hparse : parse origin s with
  | some found =>
      obtain ⟨tag, mid⟩ := found
      obtain ⟨hclose, hlength⟩ := afterClose?_parse hparse
      exact ⟨some tag, mid, orElse_of_some (map_eq_some_iff.2 ⟨tag, hparse, rfl⟩), hlength, hclose⟩
  | none =>
      obtain ⟨c, more, rfl⟩ := List.exists_cons_of_ne_nil hs
      have hbetween : between (c :: more) =
          some ((), more.dropWhile fun c => c != '@' && c != '*') := by
        rw [between]
        rintro _ rfl rfl
        exact hopen ⟨_, rfl⟩
      refine ⟨none, more.dropWhile fun c => c != '@' && c != '*', ?_, ?_, ?_⟩
      · rw [step, orElse_of_none (map_of_none hparse)]
        exact map_eq_some_iff.2 ⟨(), hbetween, rfl⟩
      · exact Nat.lt_succ_of_le (List.dropWhile_suffix _).length_le
      · rw [afterClose?_dropWhile (by decide)]
        symm
        rw [afterClose?]
        rintro _ rfl rfl
        exact hopen ⟨_, rfl⟩

/-- The tags of a block end where it is closed. -/
theorem exists_many_step (origin : List Char) (h : afterClose? s = some rest) :
    ∃ found, many (step origin) s = some (found, '*' :: '/' :: rest) := by
  induction hn : s.length using Nat.strongRecOn generalizing s with
  | ind n ih =>
      by_cases hclose : ∃ more, s = '*' :: '/' :: more
      · obtain ⟨more, rfl⟩ := hclose
        cases h
        have hparse : parse origin ('*' :: '/' :: rest) = none := rfl
        refine ⟨[], many_of_none ?_⟩
        rw [step, orElse_of_none (map_of_none hparse)]
        rfl
      · have hs : s ≠ [] := by
          rintro rfl
          cases h
        obtain ⟨first, mid, hstep, hlength, hsame⟩ := exists_step origin hclose hs
        obtain ⟨found, hfound⟩ := ih mid.length (hn ▸ hlength) (hsame.trans h) rfl
        refine ⟨first :: found, ?_⟩
        rw [many_of_some hstep hlength, hfound]
        rfl

/-- A block opens with `/**`, names `@f_version` and is read to its close. -/
theorem block_eq_some_iff : (∃ tags, block s = some (tags, rest)) ↔
    ∃ y, s = '/' :: '*' :: '*' :: y ∧ namesVersion y = true ∧ afterClose? y = some rest := by
  have hblock (y : List Char) : block ('/' :: '*' :: '*' :: y) =
      if namesVersion y && (afterClose? y).isSome then
        (do let found ← many (step ('/' :: '*' :: '*' :: y))
            exactly "*/"
            return found.filterMap id : Parser (List Tag)) y
      else none := rfl
  have hread {y after : List Char} (hclose : afterClose? y = some after)
      (hnames : namesVersion y = true) :
      ∃ tags, block ('/' :: '*' :: '*' :: y) = some (tags, after) := by
    obtain ⟨found, hfound⟩ := exists_many_step ('/' :: '*' :: '*' :: y) hclose
    rw [hblock, hnames, hclose, Bool.true_and, Option.isSome_some, if_pos rfl]
    exact ⟨_, bind_eq_some_iff.2 ⟨found, _, hfound, rfl⟩⟩
  constructor
  · rintro ⟨tags, h⟩
    obtain ⟨y, rfl⟩ : ∃ y, s = '/' :: '*' :: '*' :: y := by
      unfold block at h
      split at h
      · exact ⟨_, rfl⟩
      · cases h
    have hahead : (namesVersion y && (afterClose? y).isSome) = true := by
      by_contra hno
      rw [hblock, if_neg hno] at h
      cases h
    obtain ⟨hnames, hclosed⟩ := Bool.and_eq_true_iff.1 hahead
    obtain ⟨after, hclose⟩ := Option.isSome_iff_exists.1 hclosed
    obtain ⟨tags', h'⟩ := hread hclose hnames
    rw [h'] at h
    cases h
    exact ⟨y, rfl, hnames, hclose⟩
  · rintro ⟨y, rfl, hnames, hclose⟩
    exact hread hclose hnames

/-- A block is read whatever comes after it. -/
theorem block_append {tags : List Tag} (h : block (x ++ rest) = some (tags, rest))
    (rest' : List Char) : ∃ tags', block (x ++ rest') = some (tags', rest') := by
  obtain ⟨y, hy, hnames, hclose⟩ := block_eq_some_iff.1 ⟨tags, h⟩
  obtain ⟨z, rfl⟩ := afterClose?_suffix hclose
  rw [← List.cons_append, ← List.cons_append, ← List.cons_append, List.append_cancel_right_eq] at hy
  subst hy
  refine block_eq_some_iff.2 ⟨z ++ rest', rfl, ?_, afterClose?_append hclose rest'⟩
  rw [namesVersion_append hclose, hnames]

end Tag

end Source

end Interaction
