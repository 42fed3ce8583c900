import Interaction.Proofs.Source.Chunk
import Interaction.Proofs.Source.Listing
import Interaction.Proofs.Source.Reading
import Interaction.Source.Program
import Mathlib.Logic.Relation

/-!
# What a text adds to a program

A program is read item by item, and what is stepped over adds nothing to it. So where a text holds
few declarations, its program can be followed from one of them to the next without the chunks in
between.
-/

namespace Interaction

namespace Source

open Source.Parser Lexeme

/-- Everything in a text is stepped over up to the given end of it. -/
abbrev SteppedOver : List Char → List Char → Prop :=
  Relation.ReflTransGen fun s rest => Item.parse s = some (.plain, rest)

namespace Program

/-- What becomes of a program with the items of a text that starts at a given line and byte. -/
def addText (line start : Nat) (s : List Char) (program : Program) : Except Flaw Program :=
  (locateFrom line start (chunks s)).foldlM add program

variable {b s mid rest : List Char} {item : Item} {entry : Entry} {program : Program}

theorem parse_ofList (s : List Char) : parse (String.ofList s) = addText 1 0 s {} := by
  rw [parse, items, String.toList_ofList, addText]

theorem addText_nil (line start : Nat) (program : Program) :
    addText line start [] program = .ok program := by
  rw [addText, chunks]
  rfl

theorem exists_addText (h : Item.parse s = some (item, rest)) (line start : Nat)
    (program : Program) : ∃ stop line' start',
      addText line start s program =
        add program ⟨line, start, stop, item⟩ >>= addText line' start' rest := by
  obtain ⟨text, rfl⟩ := (Item.advances_parse h).1
  refine ⟨start + Utf8.size text, line + text.count '\n', start + Utf8.size text, ?_⟩
  rw [addText, chunks_append h, locateFrom, List.foldlM_cons]
  rfl

theorem exists_addText_of_steppedOver (h : SteppedOver s rest) (line start : Nat)
    (program : Program) : ∃ line' start',
      addText line start s program = addText line' start' rest program := by
  induction h using Relation.ReflTransGen.head_induction_on generalizing line start with
  | refl => exact ⟨line, start, rfl⟩
  | head hread _ ih =>
      obtain ⟨stop, line', start', hadd⟩ := exists_addText hread line start program
      obtain ⟨line'', start'', hmore⟩ := ih line' start'
      exact ⟨line'', start'', hadd.trans hmore⟩

/-- A text with nothing but an entry point in it adds the entry point. -/
theorem addText_entry (hbefore : SteppedOver s mid) (h : Entry.parse mid = some (entry, rest))
    (hafter : SteppedOver rest []) (hnone : program.entry = none) (line start : Nat) :
    addText line start s program = .ok { program with entry := some entry } := by
  obtain ⟨line', start', hmid⟩ := exists_addText_of_steppedOver hbefore line start program
  obtain ⟨stop, line'', start'', hrest⟩ :=
    exists_addText (Item.parse_of_entry h) line' start' program
  obtain ⟨_, _, hend⟩ := exists_addText_of_steppedOver hafter line'' start''
    { program with entry := some entry }
  have hadd : add program ⟨line', start', stop, .entry entry⟩ =
      .ok { program with entry := some entry } := by
    rw [add, hnone]
    rfl
  rw [hmid, hrest, hadd]
  exact hend.trans (addText_nil _ _ _)

end Program

variable {b s : List Char}

theorem steppedOver_blanks (hb : IsBlanks b) (s : List Char) : SteppedOver (b ++ s) s := by
  induction b with
  | nil => exact .refl
  | cons c b ih =>
      have hread : Item.parse (c :: (b ++ s)) = some (.plain, b ++ s) :=
        Item.parse_of_blank (blank_of_isSpace (hb c (.head _)) _)
      exact .head hread (ih fun d hd => hb d (.tail _ hd))

/-- An empty body. -/
theorem steppedOver_braces : SteppedOver ['\x7b', '\x7d'] [] :=
  .head (Item.parse_of_other (by decide) (by decide) (by decide) _)
    (.single (Item.parse_of_other (by decide) (by decide) (by decide) _))

/-- A transaction without parameters is all that is added by the shortest declaration of one. -/
theorem Program.addText_transaction {program : Program} (hb : IsBlanks b)
    (hnone : program.entry = none) (line start : Nat) :
    addText line start (b ++ "transaction \x7b\x7d".toList) program =
      .ok { program with entry := some { kind := .transaction, parameters := [] } } := by
  have hskip : skip [' ', '\x7b', '\x7d'] = some ((), ['\x7b', '\x7d']) := skip_space (by decide) _
  have hkeyword : keyword "transaction" "transaction \x7b\x7d".toList =
      some ((), [' ', '\x7b', '\x7d']) :=
    keyword_append _ (stops_cons (by decide) _)
  have hlist : (skip >>= fun _ => enclosed "(" Parameter.parse ")") [' ', '\x7b', '\x7d'] =
      none := by
    rw [bind_of_some hskip]
    exact bind_of_none (exactly_of_ne rfl (by decide) _)
  have hread : Entry.parse "transaction \x7b\x7d".toList =
      some ({ kind := .transaction, parameters := [] }, ['\x7b', '\x7d']) := by
    refine orElse_of_some ?_
    rw [Entry.parseTransaction, bind_of_some hkeyword, bind_of_some (maybe_of_none hlist),
      bind_of_some hskip]
    rfl
  exact addText_entry (steppedOver_blanks hb _) hread steppedOver_braces hnone line start

end Source

end Interaction
