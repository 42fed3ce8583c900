import Interaction.Proofs.Source.Parser
import Interaction.Source.Lexeme

/-!
# What words, literals and comments leave

Every lexeme that succeeds has taken a character, blanks and lists aside, and leaves an end of the
text. A list of items between brackets advances because its opening bracket does.
-/

namespace Interaction

namespace Source

namespace Lexeme

open Source.Parser

variable {α : Type} {s rest : List Char}

theorem advances_word : Advances word :=
  .bind (.one _) fun _ => .bind (.run _) fun _ => .pure _

theorem advances_keyword {text : String} (h : text.toList ≠ []) : Advances (keyword text) :=
  .bind (.exactly h) fun _ => .notAhead _

theorem advances_addressLiteral : Advances addressLiteral :=
  .bind (.exactly (by decide)) fun _ => .bind (Advances.one _).consumes fun _ =>
    .bind (.run _) fun _ => .pure _

theorem advances_quoted : Advances quoted := by
  intro s raw rest h
  fun_induction quoted s generalizing raw with
  | case1 => cases h
  | case2 s =>
      cases h
      exact ⟨List.suffix_cons _ _, Nat.lt_succ_self _⟩
  | case3 => cases h
  | case4 c s ih =>
      obtain ⟨found, hfound, he⟩ := Option.map_eq_some_iff.1 h
      cases he
      have hmore := ih hfound
      refine ⟨(hmore.1.trans (List.suffix_cons c s)).trans (List.suffix_cons _ _), ?_⟩
      exact Nat.lt_succ_of_lt (Nat.lt_succ_of_lt hmore.2)
  | case5 c s hquote hbreak hslash ih =>
      obtain ⟨found, hfound, he⟩ := Option.map_eq_some_iff.1 h
      cases he
      have hmore := ih hfound
      exact ⟨hmore.1.trans (List.suffix_cons c s), Nat.lt_succ_of_lt hmore.2⟩

theorem advances_stringLiteral : Advances stringLiteral :=
  .bind (.exactly (by decide)) fun _ => .bind advances_quoted.consumes fun _ => .pure _

theorem afterClose?_suffix (h : afterClose? s = some rest) : rest <:+ s := by
  fun_induction afterClose? s with
  | case1 => cases h
  | case2 s =>
      cases h
      exact (List.suffix_cons _ _).trans (List.suffix_cons _ _)
  | case3 c s hopen ih => exact (ih h).trans (List.suffix_cons c s)

theorem advances_comment : Advances comment := by
  have htwo {c d : Char} {mid after : List Char} (h : after <:+ mid) :
      after <:+ c :: d :: mid ∧ after.length < (c :: d :: mid).length :=
    ⟨(h.trans (List.suffix_cons d mid)).trans (List.suffix_cons c _),
      Nat.lt_succ_of_lt (Nat.lt_succ_of_le h.length_le)⟩
  intro s a rest h
  unfold comment at h
  split at h
  next mid =>
    cases h
    exact htwo (List.dropWhile_suffix _)
  next mid =>
    split at h
    · cases h
    · obtain ⟨after, hafter, he⟩ := Option.map_eq_some_iff.1 h
      cases he
      exact htwo (afterClose?_suffix hafter)
  next => cases h

theorem advances_blank : Advances blank :=
  .orElse (.bind (.one _) fun _ => .pure _) advances_comment

theorem consumes_skip : Consumes skip :=
  .bind (.many advances_blank.consumes) fun _ => .pure _

theorem advances_symbol {text : String} (h : text.toList ≠ []) : Advances (symbol text) :=
  .bind_right consumes_skip fun _ => .exactly h

theorem advances_separated {item : Parser α} (h : Advances item) : Advances (separated item) :=
  .bind h fun _ => .bind (.many (.bind (advances_symbol (by decide)).consumes fun _ =>
    .bind consumes_skip fun _ => h.consumes)) fun _ => .pure _

theorem advances_listed {item : Parser α} (h : Advances item) : Advances (listed item) :=
  .bind (advances_separated h) fun _ =>
    .bind (.maybe (advances_symbol (by decide)).consumes) fun _ => .pure _

theorem advances_enclosed {opening closing : String} {item : Parser α} (h : Advances item)
    (hopening : opening.toList ≠ []) : Advances (enclosed opening item closing) :=
  .bind (.exactly hopening) fun _ =>
    .bind (.maybe (.bind consumes_skip fun _ => (advances_listed h).consumes)) fun _ =>
      .bind (.bind consumes_skip fun _ => .exactly _) fun _ => .pure _

end Lexeme

end Source

end Interaction
