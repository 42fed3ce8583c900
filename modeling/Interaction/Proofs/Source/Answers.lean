import Interaction.Proofs.Source.Count
import Interaction.Proofs.Source.Word

/-!
# What a parser answers

Some things hold of whatever a parser answers, wherever it reads it. They are said once for each
way of putting parsers together: of a parser that is repeated they hold item by item.
-/

namespace Interaction

namespace Source

open Source.Parser Lexeme

namespace Parser

variable {α β : Type} {good : α → Prop} {other : β → Prop} {p q : Parser α}

/-- Whether all that a parser answers is good. -/
def Answers (good : α → Prop) (p : Parser α) : Prop :=
  ∀ ⦃s a rest⦄, p s = some (a, rest) → good a

namespace Answers

theorem any (p : Parser α) : Answers (fun _ => True) p :=
  fun _ _ _ _ => trivial

theorem pure {a : α} (h : good a) : Answers good (pure a) := by
  intro s b rest hread
  cases hread
  exact h

theorem bind {q : α → Parser β} (hp : Answers good p) (hq : ∀ a, good a → Answers other (q a)) :
    Answers other (p >>= q) := by
  intro s b rest h
  obtain ⟨a, mid, hfirst, hnext⟩ := bind_eq_some_iff.1 h
  exact hq a (hp hfirst) hnext

/-- A parser whose answer does not matter goes before another one. -/
theorem after {q : α → Parser β} (hq : ∀ a, Answers other (q a)) : Answers other (p >>= q) :=
  bind (any p) fun a _ => hq a

theorem map {f : α → β} (hp : Answers good p) (hf : ∀ a, good a → other (f a)) :
    Answers other (f <$> p) := by
  intro s b rest h
  obtain ⟨a, ha, rfl⟩ := map_eq_some_iff.1 h
  exact hf a (hp ha)

theorem orElse (hp : Answers good p) (hq : Answers good q) : Answers good (p <|> q) := by
  intro s a rest h
  rcases orElse_eq_some_iff.1 h with h | ⟨-, h⟩
  · exact hp h
  · exact hq h

theorem maybe (hp : Answers good p) : Answers (∀ a ∈ ·, good a) (maybe p) := by
  intro s found rest h
  rcases maybe_eq_some_iff.1 h with ⟨a, ha, rfl⟩ | ⟨-, rfl, -⟩
  · rintro _ ⟨⟩
    exact hp ha
  · nofun

theorem many (hp : Answers good p) : Answers (∀ a ∈ ·, good a) (many p) := by
  intro s found rest h
  fun_induction Parser.many p s generalizing found with
  | case1 s hnone =>
      cases h
      exact List.forall_mem_nil _
  | case2 s first mid hfirst hshorter ih =>
      obtain ⟨more, hmore, he⟩ := Option.map_eq_some_iff.1 h
      cases he
      exact List.forall_mem_cons.2 ⟨hp hfirst, ih hmore⟩
  | case3 s first mid hfirst hsame =>
      cases h
      exact List.forall_mem_nil _

theorem separated (hp : Answers good p) :
    Answers (fun l => l ≠ [] ∧ ∀ a ∈ l, good a) (separated p) :=
  .bind hp fun _ hfirst => .bind (.many (.after fun _ => .after fun _ => hp)) fun _ hmore =>
    .pure ⟨List.cons_ne_nil _ _, List.forall_mem_cons.2 ⟨hfirst, hmore⟩⟩

theorem listed (hp : Answers good p) : Answers (∀ a ∈ ·, good a) (listed p) :=
  .bind (.separated hp) fun _ hitems => .after fun _ => .pure hitems.2

theorem enclosed (hp : Answers good p) (opening closing : String) :
    Answers (∀ a ∈ ·, good a) (enclosed opening p closing) := by
  refine .after fun _ => .bind (.maybe (.after fun _ => .listed hp)) fun found hfound =>
    .after fun _ => .pure ?_
  cases found with
  | none => nofun
  | some items => exact hfound items rfl

end Answers

end Parser

theorem answers_word : Answers (IsWord ·.toList) word :=
  fun _ _ _ h => (word_eq_some_iff.1 h).1

/-- Whether what a declaration names with a source are words, at least one. -/
def Clause.NamesWords : Clause → Prop
  | .located names _ => names ≠ [] ∧ ∀ name ∈ names, IsWord name.toList
  | .filed names _ => names ≠ [] ∧ ∀ name ∈ names, IsWord name.toList
  | .bare _ => True

theorem Clause.answers_parse : Answers NamesWords Clause.parse :=
  .after fun _ => .after fun _ => .orElse
    (.bind (.separated answers_word) fun _ hnames => .after fun _ => .after fun _ =>
      .after fun _ => .orElse (.map (.any _) fun _ _ => hnames) (.map (.any _) fun _ _ => hnames))
    (.map (.any _) fun _ _ => trivial)

/-! ### Parameters -/

/-- Whether a parameter has no texts of its own. -/
def Parameter.IsUntitled (parameter : Parameter) : Prop :=
  parameter.title = none ∧ parameter.description = none

theorem Parameter.answers_parse : Answers IsUntitled Parameter.parse :=
  .after fun _ => .after fun _ => .after fun _ => .after fun _ => .after fun _ => .after fun _ =>
    .pure ⟨rfl, rfl⟩

namespace Entry

theorem answers_parse : Answers (fun e => ∀ p ∈ e.parameters, p.IsUntitled) Entry.parse := by
  refine .orElse ?_ ?_
  · refine .after fun _ => .bind (.maybe (.after fun _ =>
      .enclosed Parameter.answers_parse _ _)) fun found hfound =>
        .after fun _ => .after fun _ => .pure ?_
    cases found with
    | none => nofun
    | some items => exact hfound items rfl
  · exact .after fun _ => .after fun _ => .after fun _ => .after fun _ =>
      .bind (.enclosed Parameter.answers_parse _ _) fun _ hitems => .after fun _ => .pure hitems

end Entry

end Source

end Interaction
