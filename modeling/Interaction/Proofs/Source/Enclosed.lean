import Interaction.Proofs.Source.Word

/-!
# What is closed is read by itself

A declaration that ends with a bracket or a quote is read up to it whatever comes after, if it does
not hold the comment `/**/`. The values may differ, since a pragma counts the lines of all that
follows; so two parsers are compared, and only in what they read.
-/

namespace Interaction

namespace Source

open Source.Parser Lexeme

variable {α β γ δ : Type} {n : Nat} {s v x rest rest' : List Char} {c k : Char} {text : String}

/-- What one parser reads, up to a length, another reads too, whatever comes after it. -/
def Closed (n : Nat) (p : Parser α) (p' : Parser β) : Prop :=
  ∀ ⦃x rest a⦄, x.length ≤ n → NoEmptyComment x → p (x ++ rest) = some (a, rest) →
    ∀ rest', ∃ b, p' (x ++ rest') = some (b, rest')

/-- Whatever a parser reads starts with a character of the given kind. -/
def Starts (kind : Char → Prop) (p : Parser α) : Prop :=
  ∀ ⦃s a rest⦄, p s = some (a, rest) → ∃ c v, s = c :: v ∧ kind c

namespace Starts

variable {kind other : Char → Prop} {p q : Parser α}

theorem eq_none (h : Starts kind p) (hk : ¬ kind k) (s : List Char) : p (k :: s) = none := by
  by_contra hsome
  obtain ⟨⟨a, rest⟩, hread⟩ := Option.ne_none_iff_exists'.1 hsome
  obtain ⟨c, v, heq, hstart⟩ := h hread
  exact hk ((List.cons.inj heq).1 ▸ hstart)

theorem mono (h : Starts kind p) (hkind : ∀ c, kind c → other c) : Starts other p := by
  intro s a rest hread
  obtain ⟨c, v, hs, hc⟩ := h hread
  exact ⟨c, v, hs, hkind c hc⟩

theorem bind {q : α → Parser β} (h : Starts kind p) : Starts kind (p >>= q) := by
  intro s b rest hread
  obtain ⟨a, mid, hfirst, -⟩ := bind_eq_some_iff.1 hread
  exact h hfirst

theorem map {f : α → β} (h : Starts kind p) : Starts kind (f <$> p) := by
  intro s b rest hread
  obtain ⟨a, hfirst, -⟩ := map_eq_some_iff.1 hread
  exact h hfirst

theorem orElse (hp : Starts kind p) (hq : Starts kind q) : Starts kind (p <|> q) := by
  intro s a rest hread
  rcases orElse_eq_some_iff.1 hread with h | ⟨-, h⟩
  · exact hp h
  · exact hq h

theorem exactly {tail : List Char} (htext : text.toList = k :: tail) (hk : kind k) :
    Starts kind (Parser.exactly text) := by
  intro s a rest hread
  rw [exactly_eq_some_iff.1 hread, htext]
  exact ⟨k, tail ++ rest, rfl, hk⟩

theorem word : Starts (isWordStart · = true) Lexeme.word := by
  intro s w rest h
  obtain ⟨c, mid, hone, -⟩ := bind_eq_some_iff.1 h
  obtain ⟨rfl, hstart⟩ := one_eq_some_iff.1 hone
  exact ⟨c, mid, rfl, hstart⟩

end Starts

/-- The blanks before what starts with none, which are skipped whatever comes after it. -/
theorem split_of_skip_bind {p : Parser α} {a : α} (hadvances : Advances p)
    (hstart : Starts Solid p) (hx : NoEmptyComment x)
    (h : (skip >>= fun _ => p) (x ++ rest) = some (a, rest)) :
    ∃ y z, x = y ++ z ∧ p (z ++ rest) = some (a, rest) ∧
      ∀ rest', skip (y ++ (z ++ rest')) = some ((), z ++ rest') := by
  obtain ⟨⟨⟩, y, z, rfl, hskip, hnext⟩ :=
    split_of_bind consumes_skip (fun _ => hadvances.consumes) h
  obtain ⟨c, v, heq, hc⟩ := hstart hnext
  refine ⟨y, z, rfl, hnext, fun rest' => ?_⟩
  cases z with
  | nil => exact absurd (hadvances hnext).2 (Nat.lt_irrefl _)
  | cons d z =>
      rw [(List.cons.inj heq).1] at hskip ⊢
      exact skip_append hx.left hc hskip (z ++ rest')

/-- Blanks before what starts with none, if that is read with the same value. -/
theorem skip_bind_append {p : Parser α} {a : α} (hadvances : Advances p) (hstart : Starts Solid p)
    (hx : NoEmptyComment x) (h : (skip >>= fun _ => p) (x ++ rest) = some (a, rest))
    (happend : ∀ z, NoEmptyComment z → p (z ++ rest) = some (a, rest) →
      p (z ++ rest') = some (a, rest')) :
    (skip >>= fun _ => p) (x ++ rest') = some (a, rest') := by
  obtain ⟨y, z, rfl, hnext, hskip⟩ := split_of_skip_bind hadvances hstart hx h
  rw [List.append_assoc]
  exact bind_eq_some_iff.2 ⟨(), _, hskip rest', happend z hx.right hnext⟩

namespace Closed

variable {p q : Parser α} {p' q' : Parser β}

theorem bind {q : α → Parser γ} {q' : β → Parser δ} (hp : Closed n p p')
    (hconsumes : Consumes p) (hnext : ∀ a, Consumes (q a)) (hq : ∀ a b, Closed n (q a) (q' b)) :
    Closed n (p >>= q) (p' >>= q') := by
  intro x rest c hlength hx h rest'
  obtain ⟨a, y, z, rfl, hfirst, hsecond⟩ := split_of_bind hconsumes hnext h
  rw [List.length_append] at hlength
  obtain ⟨b, hb⟩ := hp (by omega) hx.left hfirst (z ++ rest')
  obtain ⟨d, hd⟩ := hq a b (by omega) hx.right hsecond rest'
  rw [List.append_assoc]
  exact ⟨d, bind_eq_some_iff.2 ⟨b, _, hb, hd⟩⟩

theorem exactly (text : String) : Closed n (Parser.exactly text) (Parser.exactly text) := by
  intro x rest a _ _ h rest'
  have hx := exactly_eq_some_iff.1 h
  rw [List.append_cancel_right_eq] at hx
  exact ⟨(), exactly_eq_some_iff.2 (hx ▸ rfl)⟩

/-- Blanks before what starts with none. -/
theorem skip_bind (h : Closed n p p') (hadvances : Advances p) (hstart : Starts Solid p) :
    Closed n (skip >>= fun _ => p) (skip >>= fun _ => p') := by
  intro x rest a hlength hx hread rest'
  obtain ⟨y, z, rfl, hnext, hskip⟩ := split_of_skip_bind hadvances hstart hx hread
  rw [List.length_append] at hlength
  obtain ⟨b, hb⟩ := h (by omega) hx.right hnext rest'
  rw [List.append_assoc]
  exact ⟨b, bind_eq_some_iff.2 ⟨(), _, hskip rest', hb⟩⟩

end Closed

theorem symbol_eq_some_iff (htext : text.toList = [k]) :
    symbol text s = some ((), rest) ↔ skip s = some ((), k :: rest) := by
  constructor
  · intro h
    obtain ⟨⟨⟩, mid, hskip, hexactly⟩ := bind_eq_some_iff.1 h
    rw [hskip, exactly_eq_some_iff.1 hexactly, htext]
    rfl
  · intro h
    refine bind_eq_some_iff.2 ⟨(), _, h, exactly_eq_some_iff.2 ?_⟩
    rw [htext]
    rfl

theorem symbol_append (htext : text.toList = [k]) (hk : Solid k) (hx : NoEmptyComment x)
    (h : symbol text (x ++ rest) = some ((), rest)) (rest' : List Char) :
    symbol text (x ++ rest') = some ((), rest') := by
  obtain ⟨⟨⟩, y, z, rfl, hskip, hexactly⟩ :=
    split_of_bind consumes_skip (fun _ => .exactly _) h
  have hz := exactly_eq_some_iff.1 hexactly
  rw [List.append_cancel_right_eq, htext] at hz
  subst hz
  rw [symbol_eq_some_iff htext, List.append_assoc]
  exact skip_append hx.left hk hskip rest'

theorem symbol_of_skip (htext : text.toList = [k]) (h : skip s = some ((), c :: v)) (hc : c ≠ k) :
    symbol text s = none := by
  change (skip >>= fun _ => exactly text) s = none
  rw [bind_of_some h]
  exact exactly_of_ne htext hc v

theorem Closed.symbol (htext : text.toList = [k]) (hk : Solid k) :
    Closed n (symbol text) (symbol text) :=
  fun _ _ _ _ hx h rest' => ⟨(), symbol_append htext hk hx h rest'⟩

/-! ### Lists in brackets -/

/-- An item of a list that is not the first. -/
def nextItem (item : Parser α) : Parser α := do
  symbol ","
  skip
  item

section List

variable {item : Parser α} {item' : Parser β} {opening : String}

theorem advances_nextItem (h : Advances item) : Advances (nextItem item) :=
  .bind (advances_symbol (by decide)) fun _ => .bind consumes_skip fun _ => h.consumes

theorem Closed.nextItem (h : Closed n item item') (hadvances : Advances item)
    (hstart : Starts Solid item) : Closed n (nextItem item) (nextItem item') :=
  .bind (.symbol rfl (by decide)) (advances_symbol (by decide)).consumes
    (fun _ => .bind consumes_skip fun _ => hadvances.consumes)
    fun _ _ => .skip_bind h hadvances hstart

/-- A bracket that closes a list: it is no comma and starts neither a blank nor an item. -/
structure IsBracket (text : String) (k : Char) : Prop where
  toList : text.toList = [k]
  solid : Solid k
  ne_comma : k ≠ ','
  not_word : ¬ isWordStart k = true

theorem IsBracket.ne_nil (h : IsBracket text k) : text.toList ≠ [] := by
  rw [h.toList]
  nofun

/-- Items of lists: what the first reads up to a length, the second reads whatever follows. -/
structure Items (n : Nat) (item : Parser α) (item' : Parser β) : Prop where
  closed : Closed n item item'
  advances : Advances item
  advances' : Advances item'
  starts : Starts (isWordStart · = true) item
  starts' : Starts (isWordStart · = true) item'

theorem Items.starts_solid (h : Items n item item') : Starts Solid item :=
  h.starts.mono fun _ => solid_of_isWordStart

/-- The rest of a list, from behind an item to its last bracket. -/
theorem Items.tail_append {l : List α} {o : Option Unit} {s₁ s₂ : List Char}
    (h : Items n item item') (htext : IsBracket text k) (hlength : x.length ≤ n)
    (hx : NoEmptyComment x) (hmany : many (nextItem item) (x ++ rest) = some (l, s₁))
    (hlast : maybe (symbol ",") s₁ = some (o, s₂)) (hclose : symbol text s₂ = some ((), rest))
    (rest' : List Char) :
    ∃ l' t₁ o' t₂, many (nextItem item') (x ++ rest') = some (l', t₁) ∧
      maybe (symbol ",") t₁ = some (o', t₂) ∧ symbol text t₂ = some ((), rest') := by
  generalize hs : x ++ rest = s at hmany
  fun_induction many (nextItem item) s generalizing x l with
  | case1 s hnone =>
      subst hs
      cases hmany
      rcases maybe_eq_some_iff.1 hlast with ⟨⟨⟩, hsome, -⟩ | ⟨-, -, rfl⟩
      · -- behind the comma after the last item, only the bracket can be read
        obtain ⟨z, rfl⟩ := (advances_symbol htext.ne_nil hclose).1
        obtain ⟨y, rfl, hread⟩ := split_of_read (advances_symbol (by decide)).consumes hsome
        rw [List.append_assoc]
        have hsymbol := symbol_append rfl (by decide) hx.left hread (z ++ rest')
        have hclose' := symbol_append htext.toList htext.solid hx.right hclose rest'
        have hskip := (symbol_eq_some_iff htext.toList).1 hclose'
        have hnext : nextItem item' (y ++ (z ++ rest')) = none := by
          rw [nextItem, bind_of_some hsymbol, bind_of_some hskip, h.starts'.eq_none htext.not_word]
        exact ⟨[], _, some (), _, many_of_none hnext, maybe_of_some hsymbol, hclose'⟩
      · have hclose' := symbol_append htext.toList htext.solid hx hclose rest'
        have hskip := (symbol_eq_some_iff htext.toList).1 hclose'
        have hsymbol : symbol "," (x ++ rest') = none := symbol_of_skip rfl hskip htext.ne_comma
        have hnext : nextItem item' (x ++ rest') = none := bind_of_none hsymbol
        exact ⟨[], _, none, _, many_of_none hnext, maybe_of_none hsymbol, hclose'⟩
  | case2 s a mid hsome hshorter ih =>
      subst hs
      obtain ⟨⟨found, after⟩, hfound, he⟩ := Option.map_eq_some_iff.1 hmany
      obtain ⟨-, rfl⟩ := Prod.mk.inj he
      have hmid : rest <:+ mid :=
        ((advances_symbol htext.ne_nil hclose).1.trans
          (Consumes.maybe (advances_symbol (by decide)).consumes hlast)).trans
          (Consumes.many (advances_nextItem h.advances).consumes hfound)
      obtain ⟨z, rfl⟩ := hmid
      obtain ⟨y, rfl, hread⟩ := split_of_read (advances_nextItem h.advances).consumes hsome
      rw [List.length_append] at hlength
      rw [List.append_assoc]
      obtain ⟨b, hb⟩ :=
        h.closed.nextItem h.advances h.starts_solid (by omega) hx.left hread (z ++ rest')
      obtain ⟨l', t₁, o', t₂, hmany', hlast', hclose'⟩ := ih (by omega) hx.right rfl hfound
      refine ⟨b :: l', t₁, o', t₂, ?_, hlast', hclose'⟩
      rw [many_of_some hb (advances_nextItem h.advances' hb).2, hmany']
      rfl
  | case3 s a mid hsome hsame => exact absurd (advances_nextItem h.advances hsome).2 hsame

theorem listed_eq_some_iff {l : List α} : listed item s = some (l, rest) ↔
    ∃ a more o s₁ s₂, item s = some (a, s₁) ∧ many (nextItem item) s₁ = some (more, s₂) ∧
      maybe (symbol ",") s₂ = some (o, rest) ∧ l = a :: more := by
  constructor
  · intro h
    obtain ⟨items, s₂, hseparated, h⟩ := bind_eq_some_iff.1 h
    obtain ⟨o, _, hlast, he⟩ := bind_eq_some_iff.1 h
    cases he
    obtain ⟨a, s₁, hfirst, h⟩ := bind_eq_some_iff.1 hseparated
    obtain ⟨more, _, hmany, he⟩ := bind_eq_some_iff.1 h
    cases he
    exact ⟨a, more, o, s₁, s₂, hfirst, hmany, hlast, rfl⟩
  · rintro ⟨a, more, o, s₁, s₂, hfirst, hmany, hlast, rfl⟩
    refine bind_eq_some_iff.2 ⟨a :: more, s₂, ?_, bind_eq_some_iff.2 ⟨o, rest, hlast, rfl⟩⟩
    exact bind_eq_some_iff.2 ⟨a, s₁, hfirst, bind_eq_some_iff.2 ⟨more, s₂, hmany, rfl⟩⟩

/-- A list in brackets is closed if its items are. -/
theorem Items.closed_enclosed (h : Items n item item') (htext : IsBracket text k) :
    Closed n (enclosed opening item text) (enclosed opening item' text) := by
  have hbody : Consumes (do skip; listed item) :=
    .bind consumes_skip fun _ => (advances_listed h.advances).consumes
  have hlast : Consumes (symbol text) := (advances_symbol htext.ne_nil).consumes
  refine .bind (.exactly _) (.exactly _)
    (fun _ => .bind (.maybe hbody) fun _ => .bind hlast fun _ => .pure _) ?_
  rintro ⟨⟩ ⟨⟩ x rest l hlength hx hread rest'
  obtain ⟨found, mid, hfound, hread⟩ := bind_eq_some_iff.1 hread
  obtain ⟨⟨⟩, _, hclose, he⟩ := bind_eq_some_iff.1 hread
  cases he
  rcases maybe_eq_some_iff.1 hfound with ⟨items, hitems, rfl⟩ | ⟨-, rfl, rfl⟩
  · obtain ⟨⟨⟩, s, hskip, hlisted⟩ := bind_eq_some_iff.1 hitems
    obtain ⟨a, more, o, s₁, s₂, hfirst, hmany, hcomma, rfl⟩ := listed_eq_some_iff.1 hlisted
    -- what is left after the first item, `z`, is the rest of the list
    obtain ⟨z, rfl⟩ : rest <:+ s₁ :=
      ((hlast hclose).trans (Consumes.maybe (advances_symbol (by decide)).consumes hcomma)).trans
        (Consumes.many (advances_nextItem h.advances).consumes hmany)
    obtain ⟨y, rfl, hitem⟩ := split_of_read (.bind consumes_skip fun _ => h.advances.consumes)
      (bind_eq_some_iff.2 ⟨(), s, hskip, hfirst⟩)
    rw [List.length_append] at hlength
    rw [List.append_assoc]
    obtain ⟨b, hb⟩ := Closed.skip_bind h.closed h.advances h.starts_solid (by omega) hx.left hitem
      (z ++ rest')
    obtain ⟨l', t₁, o', t₂, hmany', hcomma', hclose'⟩ :=
      h.tail_append htext (by omega) hx.right hmany hcomma hclose rest'
    obtain ⟨⟨⟩, t, hskip', hfirst'⟩ := bind_eq_some_iff.1 hb
    have hlisted' := listed_eq_some_iff.2 ⟨b, l', o', _, t₁, hfirst', hmany', hcomma', rfl⟩
    have hbody' : (skip >>= fun _ => listed item') (y ++ (z ++ rest')) = some (b :: l', t₂) :=
      bind_eq_some_iff.2 ⟨(), t, hskip', hlisted'⟩
    exact ⟨b :: l', (bind_of_some (maybe_of_some hbody')).trans (bind_of_some hclose')⟩
  · have hclose' := symbol_append htext.toList htext.solid hx hclose rest'
    have hskip := (symbol_eq_some_iff htext.toList).1 hclose'
    have hbody' : (skip >>= fun _ => listed item') (x ++ rest') = none := by
      rw [bind_of_some hskip]
      exact bind_of_none (bind_of_none (h.starts'.eq_none htext.not_word _))
    exact ⟨[], (bind_of_some (maybe_of_none hbody')).trans (bind_of_some hclose')⟩

end List

end Source

end Interaction
