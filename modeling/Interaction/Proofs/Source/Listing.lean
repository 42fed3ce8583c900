import Interaction.Proofs.Source.Declaration

/-!
# Lists in brackets

A list in brackets is read item by item. What follows an item is told by `Listing`: more items
behind commas, perhaps a comma behind the last, and the bracket, with blanks wherever they may
stand. What an item is does not matter as long as it starts with a word.
-/

namespace Interaction

namespace Source

open Source.Parser Lexeme

/-- Spaces, tabs and line breaks only. -/
def IsBlanks (s : List Char) : Prop :=
  ∀ c ∈ s, isSpace c = true

instance (s : List Char) : Decidable (IsBlanks s) :=
  List.decidableBAll (isSpace · = true) s

variable {α : Type} {p : Parser α} {a : α} {as : List α} {b s rest : List Char} {c k : Char}
  {text opening : String}

theorem isBlanks_nil : IsBlanks [] :=
  nofun

theorem isBlanks_space : IsBlanks [' '] := by
  decide

theorem skip_blanks (hb : IsBlanks b) (hc : Solid c) (s : List Char) :
    skip (b ++ c :: s) = some ((), c :: s) := by
  have hmany : ∃ l, many blank (b ++ c :: s) = some (l, c :: s) := by
    induction b with
    | nil => exact ⟨[], many_of_none (blank_of_solid hc s)⟩
    | cons d b ih =>
        obtain ⟨l, hl⟩ := ih fun e he => hb e (.tail _ he)
        have hd : blank (d :: (b ++ c :: s)) = some ((), b ++ c :: s) :=
          blank_of_isSpace (hb d (.head _)) _
        refine ⟨() :: l, ?_⟩
        rw [List.cons_append, many_of_some hd (Nat.lt_succ_self _), hl]
        rfl
  obtain ⟨l, hl⟩ := hmany
  exact bind_eq_some_iff.2 ⟨l, c :: s, hl, rfl⟩

theorem symbol_blanks (htext : text.toList = [k]) (hb : IsBlanks b) (hk : Solid k)
    (s : List Char) : symbol text (b ++ k :: s) = some ((), s) :=
  (symbol_eq_some_iff htext).2 (skip_blanks hb hk s)

/-- What stands behind an item of a list up to its bracket, by the items that are read there and by
what is left behind the bracket. -/
inductive Listing (p : Parser α) (k : Char) (rest : List Char) : List α → List Char → Prop
  | closed {b : List Char} (hb : IsBlanks b) : Listing p k rest [] (b ++ k :: rest)
  | comma {b b' : List Char} (hb : IsBlanks b) (hb' : IsBlanks b') :
      Listing p k rest [] (b ++ ',' :: (b' ++ k :: rest))
  | item {b b' s mid : List Char} {a : α} {as : List α} (hb : IsBlanks b) (hb' : IsBlanks b')
      (hread : p s = some (a, mid)) (hmore : Listing p k rest as mid) :
      Listing p k rest (a :: as) (b ++ ',' :: (b' ++ s))

/-- What stands behind the opening bracket of a list. -/
inductive Enclosure (p : Parser α) (k : Char) (rest : List Char) : List α → List Char → Prop
  | empty {b : List Char} (hb : IsBlanks b) : Enclosure p k rest [] (b ++ k :: rest)
  | items {b s mid : List Char} {a : α} {as : List α} (hb : IsBlanks b)
      (hread : p s = some (a, mid)) (hmore : Listing p k rest as mid) :
      Enclosure p k rest (a :: as) (b ++ s)

theorem skip_item (hb : IsBlanks b) (hstart : Starts (isWordStart · = true) p)
    (hread : p s = some (a, rest)) : skip (b ++ s) = some ((), s) := by
  obtain ⟨c, v, rfl, hc⟩ := hstart hread
  exact skip_blanks hb (solid_of_isWordStart hc) v

/-- The rest of a list is read item by item, by induction on the items. -/
theorem Listing.exists_many (h : Listing p k rest as s) (hadvances : Advances p)
    (hstart : Starts (isWordStart · = true) p) (htext : IsBracket text k) :
    ∃ mid found last, many (nextItem p) s = some (as, mid) ∧
      maybe (symbol ",") mid = some (found, last) ∧ symbol text last = some ((), rest) := by
  induction h with
  | @closed b hb =>
      have hcomma : symbol "," (b ++ k :: rest) = none :=
        symbol_of_skip rfl (skip_blanks hb htext.solid rest) htext.ne_comma
      exact ⟨_, none, _, many_of_none (bind_of_none hcomma), maybe_of_none hcomma,
        symbol_blanks htext.toList hb htext.solid rest⟩
  | @comma b b' hb hb' =>
      have hcomma : symbol "," (b ++ ',' :: (b' ++ k :: rest)) = some ((), b' ++ k :: rest) :=
        symbol_blanks rfl hb (by decide) _
      have hnext : nextItem p (b ++ ',' :: (b' ++ k :: rest)) = none := by
        rw [nextItem, bind_of_some hcomma, bind_of_some (skip_blanks hb' htext.solid rest)]
        exact hstart.eq_none htext.not_word rest
      exact ⟨_, some (), _, many_of_none hnext, maybe_of_some hcomma,
        symbol_blanks htext.toList hb' htext.solid rest⟩
  | @item b b' s mid a as hb hb' hread _ ih =>
      obtain ⟨last, found, after, hmany, hlast, hclose⟩ := ih
      have hcomma : symbol "," (b ++ ',' :: (b' ++ s)) = some ((), b' ++ s) :=
        symbol_blanks rfl hb (by decide) _
      have hnext : nextItem p (b ++ ',' :: (b' ++ s)) = some (a, mid) := by
        rw [nextItem, bind_of_some hcomma, bind_of_some (skip_item hb' hstart hread), hread]
      refine ⟨last, found, after, ?_, hlast, hclose⟩
      rw [many_of_some hnext (advances_nextItem hadvances hnext).2, hmany]
      rfl

/-- A list in brackets is read as its items. -/
theorem Enclosure.enclosed (h : Enclosure p k rest as s) (hadvances : Advances p)
    (hstart : Starts (isWordStart · = true) p) (htext : IsBracket text k) (opening : String) :
    enclosed opening p text (opening.toList ++ s) = some (as, rest) := by
  have hopening := exactly_append opening s
  cases h with
  | @empty b hb =>
      have hskip := skip_blanks hb htext.solid rest
      have hitems : (skip >>= fun _ => listed p) (b ++ k :: rest) = none := by
        rw [bind_of_some hskip]
        exact bind_of_none (bind_of_none (hstart.eq_none htext.not_word rest))
      rw [Lexeme.enclosed, bind_of_some hopening, bind_of_some (maybe_of_none hitems),
        bind_of_some (symbol_blanks htext.toList hb htext.solid rest)]
      rfl
  | @items b s mid a as hb hread hmore =>
      obtain ⟨last, found, after, hmany, hlast, hclose⟩ :=
        hmore.exists_many hadvances hstart htext
      have hlisted : listed p s = some (a :: as, after) :=
        listed_eq_some_iff.2 ⟨a, as, found, mid, last, hread, hmany, hlast, rfl⟩
      have hitems : (skip >>= fun _ => listed p) (b ++ s) = some (a :: as, after) := by
        rw [bind_of_some (skip_item hb hstart hread), hlisted]
      rw [Lexeme.enclosed, bind_of_some hopening, bind_of_some (maybe_of_some hitems),
        bind_of_some hclose]
      rfl

/-! ### Lists as they are written -/

/-- What may be written behind an item of a list: more items behind commas, perhaps a comma behind
the last, and blanks between them. -/
inductive Continued {β : Type} (writes : β → List Char → Prop) : List β → List Char → Prop
  | nil {b : List Char} (hb : IsBlanks b) : Continued writes [] b
  | comma {b b' : List Char} (hb : IsBlanks b) (hb' : IsBlanks b') :
      Continued writes [] (b ++ ',' :: b')
  | cons {b b' s mid : List Char} {i : β} {items : List β} (hb : IsBlanks b) (hb' : IsBlanks b')
      (hitem : writes i s) (hmore : Continued writes items mid) :
      Continued writes (i :: items) (b ++ ',' :: (b' ++ (s ++ mid)))

/-- What may be written between brackets for a list of items, of which each may be written in
several ways. -/
inductive Series {β : Type} (writes : β → List Char → Prop) : List β → List Char → Prop
  | nil {b : List Char} (hb : IsBlanks b) : Series writes [] b
  | cons {b s mid : List Char} {i : β} {items : List β} (hb : IsBlanks b) (hitem : writes i s)
      (hmore : Continued writes items mid) : Series writes (i :: items) (b ++ (s ++ mid))

section Series

variable {β : Type} {writes : β → List Char → Prop} {reads : β → α → Prop} {items : List β}

theorem Continued.exists_listing (h : Continued writes items s)
    (hread : ∀ i ∈ items, ∀ t, writes i t → ∀ r, ∃ a, p (t ++ r) = some (a, r) ∧ reads i a)
    (k : Char) (rest : List Char) :
    ∃ as, List.Forall₂ reads items as ∧ Listing p k rest as (s ++ k :: rest) := by
  induction h with
  | nil hb => exact ⟨[], .nil, .closed hb⟩
  | comma hb hb' =>
      rw [List.append_assoc]
      exact ⟨[], .nil, .comma hb hb'⟩
  | @cons b b' t mid i items hb hb' hitem _ ih =>
      obtain ⟨as, hreads, hlisting⟩ := ih fun j hj => hread j (.tail _ hj)
      obtain ⟨a, ha, hi⟩ := hread i (.head _) t hitem (mid ++ k :: rest)
      rw [List.append_assoc, List.cons_append, List.append_assoc, List.append_assoc]
      exact ⟨a :: as, .cons hi hreads, .item hb hb' ha hlisting⟩

/-- A list is read item by item if its items are read whatever stands behind them. -/
theorem Series.exists_enclosure (h : Series writes items s)
    (hread : ∀ i ∈ items, ∀ t, writes i t → ∀ r, ∃ a, p (t ++ r) = some (a, r) ∧ reads i a)
    (k : Char) (rest : List Char) :
    ∃ as, List.Forall₂ reads items as ∧ Enclosure p k rest as (s ++ k :: rest) := by
  cases h with
  | nil hb => exact ⟨[], .nil, .empty hb⟩
  | @cons b t mid i items hb hitem hmore =>
      obtain ⟨as, hreads, hlisting⟩ :=
        hmore.exists_listing (fun j hj => hread j (.tail _ hj)) k rest
      obtain ⟨a, ha, hi⟩ := hread i (.head _) t hitem (mid ++ k :: rest)
      rw [List.append_assoc, List.append_assoc]
      exact ⟨a :: as, .cons hi hreads, .items hb ha hlisting⟩

end Series

section Intercalate

variable {β : Type} {write : β → String} {value : β → α} {items : List β}

theorem exists_cons_moreNames (names : List String) (k : Char) (rest : List Char) :
    ∃ c v, c ∈ [',', k] ∧ moreNames names ++ k :: rest = c :: v := by
  cases names with
  | nil => exact ⟨k, rest, .tail _ (.head _), rfl⟩
  | cons name more => exact ⟨',', _, .head _, rfl⟩

theorem Listing.moreNames (hread : ∀ i ∈ items, ∀ c v, c ∈ [',', k] →
    p ((write i).toList ++ c :: v) = some (value i, c :: v)) (rest : List Char) :
    Listing p k rest (items.map value) (moreNames (items.map write) ++ k :: rest) := by
  induction items with
  | nil => exact .closed isBlanks_nil
  | cons i items ih =>
      obtain ⟨c, v, hc, hrest⟩ := exists_cons_moreNames (items.map write) k rest
      have hmore := ih fun j hj => hread j (.tail _ hj)
      have hitem := hread i (.head _) c v hc
      rw [← hrest] at hitem
      rw [List.map_cons, List.map_cons, Lexeme.moreNames, List.flatMap_cons, List.append_assoc]
      change Listing p k rest _ ([] ++ ',' :: ([' '] ++ ((write i).toList ++
        (Lexeme.moreNames (items.map write) ++ k :: rest))))
      exact .item isBlanks_nil isBlanks_space hitem hmore

/-- Items that are each read back as they are written are so as a list. -/
theorem Enclosure.intercalate (hread : ∀ i ∈ items, ∀ c v, c ∈ [',', k] →
    p ((write i).toList ++ c :: v) = some (value i, c :: v)) (rest : List Char) :
    Enclosure p k rest (items.map value)
      ((", ".intercalate (items.map write)).toList ++ k :: rest) := by
  cases items with
  | nil => exact .empty isBlanks_nil
  | cons i items =>
      obtain ⟨c, v, hc, hrest⟩ := exists_cons_moreNames (items.map write) k rest
      have hmore := Listing.moreNames (fun j hj => hread j (.tail _ hj)) rest
      have hitem := hread i (.head _) c v hc
      rw [← hrest] at hitem
      rw [List.map_cons, List.map_cons, toList_intercalate, List.append_assoc]
      change Enclosure p k rest _ ([] ++ ((write i).toList ++
        (moreNames (items.map write) ++ k :: rest)))
      exact .items isBlanks_nil hitem hmore

end Intercalate

end Source

end Interaction
