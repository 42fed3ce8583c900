import Interaction.Proofs.Source.Annotation

/-!
# What is found where

The first character of a text rules out most of the parsers an item may be read by. So where one of
them reads something, it is its item that is found, and for most items this does not depend on what
comes after them.
-/

namespace Interaction

namespace Source

open Source.Parser Lexeme

variable {s rest : List Char} {c : Char} {w : String} {clause : Clause}

/-! ### What no declaration starts with -/

theorem Tag.block_of_ne (h : c ≠ '/') (s : List Char) : Tag.block (c :: s) = none := by
  unfold Tag.block
  split
  next heq => exact absurd (List.cons.inj heq).1 h
  next => rfl

theorem starts_pragma : Starts (Eq '#') pragma := by
  intro s fields rest h
  obtain ⟨origin, mid, hget, h⟩ := bind_eq_some_iff.1 h
  cases hget
  exact (Starts.exactly rfl rfl).bind h

theorem Clause.parse_of_keyword (h : keyword "import" s = none) : Clause.parse s = none :=
  bind_of_none h

theorem Entry.parse_of_keyword (htransaction : keyword "transaction" s = none)
    (hfun : keyword "fun" s = none) : Entry.parse s = none := by
  have hfirst : Entry.parseTransaction s = none := bind_of_none htransaction
  rw [Entry.parse, orElse_of_none hfirst]
  exact bind_of_none hfun

/-! ### Items by the parsers that read them -/

namespace Item

theorem stepOver_of_none {α : Type} {p : Parser α} (h : p s = none) : stepOver p s = none :=
  map_of_none h

theorem stepOver_of_some {α : Type} {p : Parser α} {a : α} (h : p s = some (a, rest)) :
    stepOver p s = some (.plain, rest) :=
  map_eq_some_iff.2 ⟨a, h, rfl⟩

theorem parse_of_blank (h : blank s = some ((), rest)) : Item.parse s = some (.plain, rest) :=
  orElse_of_some (stepOver_of_some h)

theorem parse_of_block {tags : List Tag} (h : Tag.block s = some (tags, rest)) :
    Item.parse s = some (.block tags, rest) := by
  obtain ⟨y, rfl, hnames, hclose⟩ := Tag.block_eq_some_iff.1 ⟨tags, h⟩
  have hahead : blockAhead ('/' :: '*' :: '*' :: y) = true := by
    rw [blockAhead, hnames, hclose]
    rfl
  have hblank : blank ('/' :: '*' :: '*' :: y) = none := by
    rw [blank, orElse_of_none (bind_of_none (one_of_not (by decide) _)), comment, if_pos hahead]
  rw [Item.parse, orElse_of_none (stepOver_of_none hblank)]
  exact orElse_of_some (map_eq_some_iff.2 ⟨tags, h, rfl⟩)

theorem parse_of_pragma {fields : List Field} (h : Source.pragma s = some (fields, rest)) :
    Item.parse s = some (.pragma fields, rest) := by
  obtain ⟨c, v, rfl, rfl⟩ := starts_pragma h
  rw [Item.parse, orElse_of_none (stepOver_of_none (blank_of_solid (by decide) v)),
    orElse_of_none (map_of_none (Tag.block_of_ne (by decide) v))]
  exact orElse_of_some (map_eq_some_iff.2 ⟨fields, h, rfl⟩)

/-- What starts neither a blank, a block nor a pragma. -/
theorem parse_cons (hsolid : Solid c) (hc : c ≠ '#') (s : List Char) :
    Item.parse (c :: s) = (imports <$> Clause.parse <|> stepOver member <|>
      entry <$> Entry.parse <|> stepOver stringLiteral <|> stepOver word <|>
      stepOver (one fun _ => true)) (c :: s) := by
  rw [Item.parse, orElse_of_none (stepOver_of_none (blank_of_solid hsolid s)),
    orElse_of_none (map_of_none (Tag.block_of_ne hsolid.2 s)),
    orElse_of_none (map_of_none (starts_pragma.eq_none hc.symm s)),
    orElse_of_none (map_of_none (exactly_of_ne rfl hc s))]

theorem parse_of_clause (h : Clause.parse s = some (clause, rest)) :
    Item.parse s = some (.imports clause, rest) := by
  obtain ⟨⟨⟩, mid, hkeyword, -⟩ := bind_eq_some_iff.1 h
  obtain ⟨rfl, -⟩ := keyword_eq_some_iff.1 hkeyword
  exact (parse_cons (by decide) (by decide) _).trans
    (orElse_of_some (map_eq_some_iff.2 ⟨clause, h, rfl⟩))

theorem member_of_ne (h : c ≠ '.') (s : List Char) : member (c :: s) = none :=
  bind_of_none (exactly_of_ne rfl h s)

theorem parse_of_entry {found : Entry} (h : Entry.parse s = some (found, rest)) :
    Item.parse s = some (.entry found, rest) := by
  have hstart : Starts (fun c => c = 't' ∨ c = 'f') Entry.parse :=
    .orElse (Starts.exactly rfl (.inl rfl)).bind.bind (Starts.exactly rfl (.inr rfl)).bind.bind
  obtain ⟨c, v, rfl, hc⟩ := hstart h
  obtain ⟨hsolid, hpragma, hmember, himport⟩ : Solid c ∧ c ≠ '#' ∧ c ≠ '.' ∧ c ≠ 'i' := by
    rcases hc with rfl | rfl <;> decide
  have hclause : Clause.parse (c :: v) = none :=
    Clause.parse_of_keyword (keyword_of_ne rfl himport v)
  rw [parse_cons hsolid hpragma, orElse_of_none (map_of_none hclause),
    orElse_of_none (stepOver_of_none (member_of_ne hmember v))]
  exact orElse_of_some (map_eq_some_iff.2 ⟨found, h, rfl⟩)

/-- What starts neither a blank, a block, a pragma, a member access nor a declaration. -/
theorem parse_cons_of_keyword (hsolid : Solid c) (hc : c ≠ '#' ∧ c ≠ '.')
    (himport : keyword "import" (c :: s) = none)
    (htransaction : keyword "transaction" (c :: s) = none)
    (hfun : keyword "fun" (c :: s) = none) :
    Item.parse (c :: s) = (stepOver stringLiteral <|> stepOver word <|>
      stepOver (one fun _ => true)) (c :: s) := by
  rw [parse_cons hsolid hc.1, orElse_of_none (map_of_none (Clause.parse_of_keyword himport)),
    orElse_of_none (stepOver_of_none (member_of_ne hc.2 s)),
    orElse_of_none (map_of_none (Entry.parse_of_keyword htransaction hfun))]

theorem parse_of_member (h : member s = some ((), rest)) : Item.parse s = some (.plain, rest) := by
  obtain ⟨c, v, rfl, rfl⟩ : ∃ c v, s = c :: v ∧ '.' = c :=
    (Starts.exactly rfl rfl).bind h
  have hclause : Clause.parse ('.' :: v) = none :=
    Clause.parse_of_keyword (keyword_of_ne rfl (by decide) v)
  rw [parse_cons (by decide) (by decide), orElse_of_none (map_of_none hclause)]
  exact orElse_of_some (stepOver_of_some h)

theorem parse_of_stringLiteral (h : stringLiteral s = some (w, rest)) :
    Item.parse s = some (.plain, rest) := by
  obtain ⟨c, v, rfl, rfl⟩ : ∃ c v, s = c :: v ∧ '"' = c :=
    (Starts.exactly rfl rfl).bind h
  rw [parse_cons_of_keyword (by decide) (by decide) (keyword_of_ne rfl (by decide) v)
    (keyword_of_ne rfl (by decide) v) (keyword_of_ne rfl (by decide) v)]
  exact orElse_of_some (stepOver_of_some h)

/-- The words that may start a declaration. -/
def openers : List String :=
  ["import", "transaction", "fun"]

theorem ne_of_isWordStart {k : Char} (h : isWordStart c = true) (hk : isWordStart k = false) :
    c ≠ k := by
  rintro rfl
  rw [h] at hk
  cases hk

theorem parse_of_word (h : word s = some (w, rest)) (hw : w ∉ openers) :
    Item.parse s = some (.plain, rest) := by
  obtain ⟨c, v, rfl, hc⟩ := Starts.word h
  have hkeyword {text : String} (htext : text ∈ openers) (hword : IsWord text.toList) :
      keyword text (c :: v) = none :=
    keyword_of_word h hword fun heq => hw (heq ▸ htext)
  rw [parse_cons_of_keyword (solid_of_isWordStart hc)
      ⟨ne_of_isWordStart hc (by decide), ne_of_isWordStart hc (by decide)⟩
      (hkeyword (by decide) (by decide)) (hkeyword (by decide) (by decide))
      (hkeyword (by decide) (by decide)),
    orElse_of_none (stepOver_of_none (stringLiteral_of_ne (ne_of_isWordStart hc (by decide)) v))]
  exact orElse_of_some (stepOver_of_some h)

/-- A character that starts nothing is stepped over. -/
theorem parse_of_other (hsolid : Solid c) (hc : c ≠ '#' ∧ c ≠ '.' ∧ c ≠ '"')
    (hword : isWordStart c = false) (s : List Char) : Item.parse (c :: s) = some (.plain, s) := by
  have hkeyword {text : String} {k : Char} {tail : List Char} (htext : text.toList = k :: tail)
      (hk : isWordStart k = true) : keyword text (c :: s) = none :=
    keyword_of_ne htext (ne_of_isWordStart hk hword).symm s
  rw [parse_cons_of_keyword hsolid ⟨hc.1, hc.2.1⟩ (hkeyword rfl (by decide))
      (hkeyword rfl (by decide)) (hkeyword rfl (by decide)),
    orElse_of_none (stepOver_of_none (stringLiteral_of_ne hc.2.2 s)),
    orElse_of_none (stepOver_of_none (word_of_not hword s))]
  rfl

end Item

end Source

end Interaction
