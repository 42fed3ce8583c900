import Interaction.Proofs.Source.Contents
import Interaction.Proofs.Source.TypeExpr

/-!
# Entry points as they are written

A parameter is declared by a name and a type, with an argument label before the name or without
one. Whatever the types are, a transaction or a `main` function is read back with its parameters in
their order and with the type it returns, and nothing else is read.
-/

namespace Interaction

namespace Source

open Source.Parser Lexeme

/-- The declaration of a parameter. -/
structure ParameterText where
  /-- What a caller names the parameter by. -/
  label : Option Word := none
  name : Word
  type : TypeExpr

namespace ParameterText

def text (p : ParameterText) : String :=
  (p.label.elim "" fun label => label.text ++ " ") ++ p.name.text ++ ": " ++
    String.ofList p.type.text

/-- The parameter that is declared. Argument labels are not kept. -/
def parameter (p : ParameterText) : Parameter :=
  { label := p.name.text, type := String.ofList p.type.text }

end ParameterText

/-- A transaction with an empty body. -/
def transactionText (ps : List ParameterText) : String :=
  "transaction(" ++ ", ".intercalate (ps.map ParameterText.text) ++ ") \x7b\x7d"

/-- A script with an empty body. -/
def scriptText (ps : List ParameterText) (result : TypeExpr) : String :=
  "access(all) fun main(" ++ ", ".intercalate (ps.map ParameterText.text) ++ "): " ++
    String.ofList result.text ++ " \x7b\x7d"

variable {s rest : List Char} {c k : Char}

theorem skip_word (w : Word) (s : List Char) :
    skip (' ' :: (w.text.toList ++ s)) = some ((), w.text.toList ++ s) := by
  obtain ⟨c, v, hw, hc⟩ := w.isWord.exists_cons
  rw [hw]
  exact skip_space hc _

/-- A type behind a colon. -/
theorem typeText_colon (type : TypeExpr) (h : EndsType rest) :
    (do symbol ":"; skip; typeText : Parser String) (':' :: ' ' :: (type.text ++ rest)) =
      some (String.ofList type.text, rest) := by
  have hcolon : symbol ":" (':' :: ' ' :: (type.text ++ rest)) =
      some ((), ' ' :: (type.text ++ rest)) :=
    symbol_blanks rfl isBlanks_nil (by decide) _
  have hskip : skip (' ' :: (type.text ++ rest)) = some ((), type.text ++ rest) := by
    obtain ⟨c, v, htype, hc⟩ := TypeText.exists_cons_type type
    rw [htype]
    exact skip_space hc _
  rw [bind_of_some hcolon, bind_of_some hskip]
  exact typeText_text type h

/-- A declaration of a parameter is read back up to a text that does not go on with its type. -/
theorem Parameter.parse_text (p : ParameterText) (h : EndsType rest) :
    Parameter.parse (p.text.toList ++ rest) = some (p.parameter, rest) := by
  obtain ⟨label, name, type⟩ := p
  have hcolon : Stops isWordChar (':' :: ' ' :: (type.text ++ rest)) := stops_cons (by decide) _
  have hend : skip (':' :: ' ' :: (type.text ++ rest)) =
      some ((), ':' :: ' ' :: (type.text ++ rest)) := skip_of_solid (by decide) _
  obtain ⟨⟨⟩, mid, hsymbol, htype⟩ := bind_eq_some_iff.1 (typeText_colon type h)
  obtain ⟨⟨⟩, after, hskip, htype⟩ := bind_eq_some_iff.1 htype
  have hparse {first : String} {second : Option String} {s mid : List Char}
      (hfirst : word s = some (first, mid))
      (hsecond : (skip >>= fun _ => maybe word) mid =
        some (second, ':' :: ' ' :: (type.text ++ rest))) :
      Parameter.parse s =
        some ({ label := second.getD first, type := String.ofList type.text }, rest) := by
    obtain ⟨⟨⟩, next, hnext, hsecond⟩ := bind_eq_some_iff.1 hsecond
    rw [Parameter.parse, bind_of_some hfirst, bind_of_some hnext, bind_of_some hsecond,
      bind_of_some hsymbol, bind_of_some hskip, bind_of_some htype]
    rfl
  cases label with
  | none =>
      have htext : (ParameterText.mk none name type).text.toList ++ rest =
          name.text.toList ++ ':' :: ' ' :: (type.text ++ rest) := by
        simp [ParameterText.text]
      have hnone : word (':' :: ' ' :: (type.text ++ rest)) = none := word_of_not (by decide) _
      rw [htext]
      have hlabel : maybe word (':' :: ' ' :: (type.text ++ rest)) =
          some (none, ':' :: ' ' :: (type.text ++ rest)) :=
        maybe_of_none hnone
      exact hparse (word_text name hcolon) ((bind_of_some hend).trans hlabel)
  | some label =>
      have htext : (ParameterText.mk (some label) name type).text.toList ++ rest =
          label.text.toList ++ ' ' :: (name.text.toList ++ ':' :: ' ' :: (type.text ++ rest)) := by
        simp [ParameterText.text]
      have hname : maybe word (name.text.toList ++ ':' :: ' ' :: (type.text ++ rest)) =
          some (some name.text, ':' :: ' ' :: (type.text ++ rest)) :=
        maybe_of_some (word_text name hcolon)
      rw [htext]
      exact hparse (word_text label (stops_cons (by decide) _))
        ((bind_of_some (skip_word name _)).trans hname)

theorem starts_parameter : Starts (isWordStart · = true) Parameter.parse :=
  Starts.word.bind

/-- The parameters of an entry point. -/
theorem parameters_text (ps : List ParameterText) (rest : List Char) :
    enclosed "(" Parameter.parse ")"
      ('(' :: ((", ".intercalate (ps.map ParameterText.text)).toList ++ ')' :: rest)) =
        some (ps.map ParameterText.parameter, rest) := by
  have hends : ∀ c ∈ [',', ')'], c ∈ typeEnds := List.all_iff_forall_prop.1 (by decide)
  have hlist : Enclosure Parameter.parse ')' rest (ps.map ParameterText.parameter)
      ((", ".intercalate (ps.map ParameterText.text)).toList ++ ')' :: rest) :=
    .intercalate (fun p _ c v hc => Parameter.parse_text p (endsType_cons (hends c hc) v)) rest
  exact hlist.enclosed Parameter.advances_parse starts_parameter isBracket_round "("

/-! ### What is read -/

theorem Entry.parse_transactionText (ps : List ParameterText) :
    Entry.parse (transactionText ps).toList =
      some ({ kind := .transaction, parameters := ps.map ParameterText.parameter },
        ['\x7b', '\x7d']) := by
  have hkeyword (s : List Char) :
      keyword "transaction" ("transaction".toList ++ '(' :: s) = some ((), '(' :: s) :=
    keyword_append _ (stops_cons (by decide) s)
  have hlist : (skip >>= fun _ => enclosed "(" Parameter.parse ")")
      ('(' :: ((", ".intercalate (ps.map ParameterText.text)).toList ++
        [')', ' ', '\x7b', '\x7d'])) =
      some (ps.map ParameterText.parameter, [' ', '\x7b', '\x7d']) :=
    (bind_of_some (skip_of_solid (by decide) _)).trans (parameters_text ps _)
  have hskip : skip [' ', '\x7b', '\x7d'] = some ((), ['\x7b', '\x7d']) := skip_space (by decide) _
  have htext : (transactionText ps).toList = "transaction".toList ++
      '(' :: ((", ".intercalate (ps.map ParameterText.text)).toList ++
        [')', ' ', '\x7b', '\x7d']) := by
    simp [transactionText]
  rw [htext, Entry.parse]
  refine orElse_of_some ?_
  rw [Entry.parseTransaction, bind_of_some (hkeyword _), bind_of_some (maybe_of_some hlist),
    bind_of_some hskip]
  rfl

theorem endsType_braces : EndsType [' ', '\x7b', '\x7d'] where
  word := stops_cons (by decide) _
  opening := by
    change Stops _ ['\x7b', '\x7d']
    exact stops_cons (by decide) _
  mark := stops_cons (by decide) _

/-- What stands before the `main` function of a script. -/
theorem steppedOver_access (s : List Char) : SteppedOver ("access(all) ".toList ++ s) s := by
  have hword {w : String} (hw : IsWord w.toList) (hopener : w ∉ Item.openers) {c : Char}
      (hc : isWordChar c = false) (v : List Char) :
      Item.parse (w.toList ++ c :: v) = some (.plain, c :: v) :=
    Item.parse_of_word (word_eq_some_iff.2 ⟨hw, rfl, stops_cons hc v⟩) hopener
  have hother {c : Char} (hc : c ∈ ['(', ')']) (v : List Char) :
      Item.parse (c :: v) = some (.plain, v) := by
    have hall : ∀ c ∈ ['(', ')'], Solid c ∧ (c ≠ '#' ∧ c ≠ '.' ∧ c ≠ '"') ∧
        isWordStart c = false := List.all_iff_forall_prop.1 (by decide)
    obtain ⟨hsolid, hne, hword⟩ := hall c hc
    exact Item.parse_of_other hsolid hne hword v
  have haccess := hword (w := "access") (c := '(') (by decide) (by decide) (by decide)
    ("all) ".toList ++ s)
  have hall := hword (w := "all") (c := ')') (by decide) (by decide) (by decide) (' ' :: s)
  exact .head haccess (.head (hother (by decide) _) (.head hall (.head (hother (by decide) _)
    (steppedOver_blanks isBlanks_space s))))

theorem Entry.parse_main (ps : List ParameterText) (result : TypeExpr) :
    Entry.parse ("fun".toList ++ ' ' :: ("main".toList ++
      '(' :: ((", ".intercalate (ps.map ParameterText.text)).toList ++
        ')' :: ':' :: ' ' :: (result.text ++ [' ', '\x7b', '\x7d'])))) =
      some ({ kind := .script, parameters := ps.map ParameterText.parameter,
              returnType := some (String.ofList result.text) }, [' ', '\x7b', '\x7d']) := by
  have hfun (s : List Char) : keyword "fun" ("fun".toList ++ ' ' :: s) = some ((), ' ' :: s) :=
    keyword_append _ (stops_cons (by decide) s)
  have hmain (s : List Char) : keyword "main" ("main".toList ++ '(' :: s) = some ((), '(' :: s) :=
    keyword_append _ (stops_cons (by decide) s)
  have htransaction (s : List Char) : Entry.parseTransaction ("fun".toList ++ s) = none :=
    bind_of_none (keyword_of_ne rfl (by decide) _)
  have hspace (s : List Char) :
      skip (' ' :: ("main".toList ++ s)) = some ((), "main".toList ++ s) :=
    skip_space (by decide) _
  have hopening (s : List Char) : skip ('(' :: s) = some ((), '(' :: s) :=
    skip_of_solid (by decide) _
  have hreturn := maybe_of_some (typeText_colon result endsType_braces)
  rw [Entry.parse, orElse_of_none (htransaction _), Entry.parseMain, bind_of_some (hfun _),
    bind_of_some (hspace _), bind_of_some (hmain _), bind_of_some (hopening _),
    bind_of_some (parameters_text ps _), bind_of_some hreturn]
  rfl

/-- A transaction and a script are read back as they are declared, whatever the types of their
parameters are. -/
theorem Program.parse_signature (ps : List ParameterText) (result : TypeExpr) :
    parse (transactionText ps) = .ok
        { entry := some
            { kind := .transaction, parameters := ps.map ParameterText.parameter } } ∧
      parse (scriptText ps result) = .ok
        { entry := some
            { kind := .script, parameters := ps.map ParameterText.parameter,
              returnType := some (String.ofList result.text) } } := by
  constructor
  · rw [← String.ofList_toList (s := transactionText ps), parse_ofList]
    exact addText_entry .refl (Entry.parse_transactionText ps) steppedOver_braces rfl 1 0
  · have htext : scriptText ps result = String.ofList ("access(all) ".toList ++
        ("fun".toList ++ ' ' :: ("main".toList ++
          '(' :: ((", ".intercalate (ps.map ParameterText.text)).toList ++
            ')' :: ':' :: ' ' :: (result.text ++ [' ', '\x7b', '\x7d']))))) := by
      refine String.toList_inj.1 ?_
      unfold scriptText
      generalize ", ".intercalate (ps.map ParameterText.text) = list
      generalize result.text = type
      simp
    have hbody : SteppedOver [' ', '\x7b', '\x7d'] [] :=
      (steppedOver_blanks isBlanks_space ['\x7b', '\x7d']).trans steppedOver_braces
    rw [htext, parse_ofList]
    exact addText_entry (steppedOver_access _) (Entry.parse_main ps result) hbody rfl 1 0

end Source

end Interaction
