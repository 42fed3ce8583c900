import Interaction.Proofs.Source.Contents
import Interaction.Proofs.Source.Keys
import Interaction.Proofs.Traversal

/-!
# Pragmas as they are written

A pragma states what is declared of an interaction and of its parameters. It may state it in any
order, with blanks and commas wherever they may stand, and its values may be any texts, since a
string literal has an escape for each character that would end it. What is read back is what was
stated, and no character of a value is taken for anything else.
-/

namespace Interaction

namespace Source

open Source.Parser Lexeme

/-! ### What a pragma states -/

/-- A text that is declared of a parameter. -/
inductive ParameterKey where
  | name
  | title
  | description
  deriving DecidableEq, Repr

namespace ParameterKey

def all : List ParameterKey :=
  [name, title, description]

def word : ParameterKey → String
  | name => "name"
  | title => "title"
  | description => "description"

def get (p : ParameterMetadata) : ParameterKey → Option String
  | name => some p.name
  | title => p.title
  | description => p.description

def set (p : ParameterMetadata) (value : String) : ParameterKey → ParameterMetadata
  | name => { p with name := value }
  | title => { p with title := some value }
  | description => { p with description := some value }

end ParameterKey

/-- The texts that are there, by their keys. -/
def present {κ : Type} (get : κ → Option String) (keys : List κ) : List (κ × String) :=
  keys.filterMap fun key => (get key).map fun value => (key, value)

/-- What one field of a pragma states. -/
inductive Statement where
  | text (key : TextKey) (value : String)
  | parameters (ps : List ParameterMetadata)
  deriving DecidableEq, Repr

namespace Statement

/-- What is stated about; nothing two fields of a pragma may have in common. -/
def key : Statement → Option TextKey
  | text key _ => some key
  | parameters _ => none

def add (m : Metadata) : Statement → Metadata
  | text key value => key.set m value
  | parameters ps => { m with parameters := ps }

end Statement

/-- The statements of all that is declared. -/
def statements (m : Metadata) : List Statement :=
  ((present (TextKey.get m) TextKey.all).map fun t => .text t.1 t.2) ++
    [Statement.parameters m.parameters]

/-- Whether these are the statements, in any order. If there are no parameters, nothing need be
stated of them. -/
def States (m : Metadata) (stated : List Statement) : Prop :=
  stated.Perm (statements m) ∨
    m.parameters = [] ∧ (stated ++ [Statement.parameters []]).Perm (statements m)

/-! ### How it is written -/

/-- A character in a string literal. -/
def escaped : Char → List Char
  | '\\' => ['\\', '\\']
  | '"' => ['\\', '"']
  | '\n' => ['\\', 'n']
  | c => [c]

/-- A string literal by its value. -/
def literal (value : String) : List Char :=
  '"' :: (value.toList.flatMap escaped ++ ['"'])

/-- A name and what stands behind its colon. -/
def IsLabelled (name : String) (body s : List Char) : Prop :=
  ∃ b b', IsBlanks b ∧ IsBlanks b' ∧ s = name.toList ++ (b ++ ':' :: (b' ++ body))

/-- A parameter with its fields in any order. -/
def WritesParameter (p : ParameterMetadata) (s : List Char) : Prop :=
  ∃ b texts inside, IsBlanks b ∧ texts.Perm (present (ParameterKey.get p) ParameterKey.all) ∧
    Series (fun t => IsLabelled (ParameterKey.word t.1) (literal t.2)) texts inside ∧
      s = "Parameter".toList ++ (b ++ '(' :: (inside ++ [')']))

def WritesStatement : Statement → List Char → Prop
  | .text key value, s => IsLabelled key.name (literal value) s
  | .parameters ps, s => ∃ inside, Series WritesParameter ps inside ∧
      IsLabelled "parameters" ('[' :: (inside ++ [']'])) s

/-- A pragma with its fields in any order. -/
def WritesPragma (m : Metadata) (s : List Char) : Prop :=
  ∃ b stated inside, IsBlanks b ∧ States m stated ∧
    Series WritesStatement stated inside ∧
      s = pragmaWord.toList ++ (b ++ '(' :: (inside ++ [')']))

variable {b s rest origin : List Char} {c k : Char} {name : String} {depth : Nat}

/-! ### Values -/

/-- A character is written as it is or behind a backslash, which is what it is read back from. -/
theorem escaped_cases (c : Char) :
    (escaped c = [c] ∧ c ≠ '"' ∧ c ≠ '\\' ∧ c ≠ '\n') ∨
      ∃ d, escaped c = ['\\', d] ∧ ∀ s, unescape ('\\' :: d :: s) = c :: unescape s := by
  by_cases hslash : c = '\\'
  · exact .inr ⟨'\\', by rw [hslash]; rfl, fun s => by rw [hslash]; rfl⟩
  by_cases hquote : c = '"'
  · exact .inr ⟨'"', by rw [hquote]; rfl, fun s => by rw [hquote]; rfl⟩
  by_cases hbreak : c = '\n'
  · exact .inr ⟨'n', by rw [hbreak]; rfl, fun s => by rw [hbreak]; rfl⟩
  refine .inl ⟨?_, hquote, hslash, hbreak⟩
  rw [escaped.eq_def]
  split <;> first | contradiction | rfl

theorem quoted_escaped (value rest : List Char) :
    quoted (value.flatMap escaped ++ '"' :: rest) = some (value.flatMap escaped, rest) := by
  induction value with
  | nil => rfl
  | cons c value ih =>
      rw [List.flatMap_cons, List.append_assoc]
      obtain ⟨hc, hquote, hslash, hbreak⟩ | ⟨d, hc, -⟩ := escaped_cases c
      · rw [hc, List.singleton_append, quoted_of_ne hquote hslash hbreak, ih]
        rfl
      · rw [hc]
        change (quoted (value.flatMap escaped ++ '"' :: rest)).map _ = _
        rw [ih]
        rfl

theorem unescape_escaped (value : List Char) : unescape (value.flatMap escaped) = value := by
  induction value with
  | nil => rfl
  | cons c value ih =>
      rw [List.flatMap_cons]
      obtain ⟨hc, -, hslash, -⟩ | ⟨d, hc, hread⟩ := escaped_cases c
      · rw [hc, List.singleton_append, unescape_of_ne hslash, ih]
      · rw [hc]
        exact (hread _).trans (congrArg (c :: ·) ih)

/-- A string literal is read as its value, whatever the value is. -/
theorem stringLiteral_literal (value : String) (rest : List Char) :
    stringLiteral (literal value ++ rest) = some (value, rest) := by
  rw [literal, List.cons_append, List.append_assoc, List.singleton_append, stringLiteral,
    bind_of_some (exactly_cons rfl _), bind_of_some (quoted_escaped value.toList rest),
    unescape_escaped, String.ofList_toList]
  rfl

/-! ### Fields -/

theorem not_isWordChar_of_isSpace (h : isSpace c = true) : isWordChar c = false := by
  simp only [isSpace, Bool.or_eq_true, beq_iff_eq] at h
  rcases h with ((rfl | rfl) | rfl) | rfl <;> decide

theorem stops_blanks (hb : IsBlanks b) (hk : isWordChar k = false) (s : List Char) :
    Stops isWordChar (b ++ k :: s) := by
  cases b with
  | nil => exact stops_cons hk s
  | cons c b => exact stops_cons (not_isWordChar_of_isSpace (hb c (.head _))) _

namespace Field

/-- A field is read by its name and then by what stands behind its colon. -/
theorem exists_parse_of_isLabelled {body : List Char} {read : Nat → Field}
    (hname : IsWord name.toList) (h : IsLabelled name body s)
    (hbody : ∃ c v, body = c :: v ∧ Solid c)
    (hread : ∀ line, (parseText line name <|> parameters line name <$>
      enclosed "[" (parseParameter (parse origin depth)) "]") (body ++ rest) =
        some (read line, rest)) :
    ∃ line, parse origin (depth + 1) (s ++ rest) = some (read line, rest) := by
  obtain ⟨b, b', hb, hb', rfl⟩ := h
  obtain ⟨c, v, rfl, hc⟩ := hbody
  have hword : word (name.toList ++ (b ++ ':' :: (b' ++ c :: v) ++ rest)) =
      some (name, b ++ ':' :: (b' ++ c :: v) ++ rest) := by
    refine word_eq_some_iff.2 ⟨hname, rfl, ?_⟩
    rw [List.append_assoc]
    exact stops_blanks hb (by decide) _
  have hcolon : symbol ":" (b ++ ':' :: (b' ++ c :: v) ++ rest) =
      some ((), b' ++ c :: (v ++ rest)) := by
    rw [List.append_assoc, List.cons_append, List.append_assoc, List.cons_append]
    exact symbol_blanks rfl hb (by decide) _
  have hvalue (line : Nat) : value line name (parse origin depth)
      (b ++ ':' :: (b' ++ c :: v) ++ rest) = some (read line, rest) := by
    rw [value, bind_of_some hcolon, bind_of_some (skip_blanks hb' hc _)]
    exact hread line
  refine ⟨linesBetween origin (name.toList ++ (b ++ ':' :: (b' ++ c :: v) ++ rest)), ?_⟩
  rw [List.append_assoc]
  exact (bind_of_some rfl).trans ((bind_of_some hword).trans (hvalue _))

theorem exists_parse_literal {value : String} (hname : IsWord name.toList)
    (h : IsLabelled name (literal value) s) (rest : List Char) :
    ∃ line, parse origin (depth + 1) (s ++ rest) = some (text line name value, rest) := by
  refine exists_parse_of_isLabelled hname h ⟨'"', _, rfl, by decide⟩ fun line => ?_
  exact orElse_of_some (map_eq_some_iff.2 ⟨value, stringLiteral_literal value rest, rfl⟩)

end Field

/-! ### Parameters -/

theorem nodup_present {κ : Type} {get : κ → Option String} {keys : List κ} (h : keys.Nodup) :
    ((present get keys).map Prod.fst).Nodup := by
  have hsublist : ((present get keys).map Prod.fst).Sublist keys := by
    induction keys with
    | nil => exact .slnil
    | cons key keys ih =>
        have hmore := ih (List.nodup_cons.1 h).2
        rw [present, List.filterMap_cons]
        cases get key with
        | none => exact hmore.cons key
        | some value => exact hmore.cons_cons key
  exact h.sublist hsublist

namespace ParameterKey

theorem isWord (key : ParameterKey) : IsWord key.word.toList := by
  cases key <;> decide

theorem describeParameter_text (key : ParameterKey) (line : Nat) (value : String)
    (known : ParameterMetadata) :
    Field.describeParameter known (.text line key.word value) = .ok (key.set known value) := by
  cases key <;> rfl

theorem set_comm {key other : ParameterKey} (h : key ≠ other) (p : ParameterMetadata)
    (v w : String) : other.set (key.set p v) w = key.set (other.set p w) v := by
  cases key <;> cases other <;> first | rfl | contradiction

/-- A parameter is all that is known once its texts are, in any order. -/
theorem foldl_set {p : ParameterMetadata} (hbalance : p.balance = none)
    {texts : List (ParameterKey × String)} (h : texts.Perm (present (get p) all)) :
    texts.foldl (fun known t => t.1.set known t.2) { name := "" } = p := by
  have hnodup : all.Nodup := by decide
  rw [foldl_eq_of_perm h (nodup_present hnodup) fun a b known hne => set_comm hne known a.2 b.2]
  obtain ⟨name, title, description, balance⟩ := p
  cases hbalance
  cases title <;> cases description <;> rfl

end ParameterKey

/-- A parameter is read back as it is written. -/
theorem exists_parameter {p : ParameterMetadata} (hname : p.name ≠ "") (hbalance : p.balance = none)
    (h : WritesParameter p s) (rest : List Char) :
    ∃ fields, Field.parseParameter (Field.parse origin (depth + 1)) (s ++ rest) =
        some (fields, rest) ∧ Field.parameterMetadata fields = .ok p := by
  obtain ⟨b, texts, inside, hb, hperm, hinside, rfl⟩ := h
  have hread : ∃ fields, List.Forall₂ (fun t field =>
        ∀ known, Field.describeParameter known field = .ok (t.1.set known t.2)) texts fields ∧
      Enclosure (Field.parse origin (depth + 1)) ')' rest fields (inside ++ ')' :: rest) := by
    refine hinside.exists_enclosure (fun t _ u hu r => ?_) ')' rest
    obtain ⟨line, hline⟩ := Field.exists_parse_literal t.1.isWord hu r
    exact ⟨_, hline, t.1.describeParameter_text line t.2⟩
  obtain ⟨fields, hfields, hlist⟩ := hread
  refine ⟨fields, ?_, ?_⟩
  · have hread := hlist.enclosed (Field.advances_parse origin (depth + 1))
      (Field.starts_parse origin (depth + 1)) isBracket_round "("
    have htext : "Parameter".toList ++ (b ++ '(' :: (inside ++ [')'])) ++ rest =
        "Parameter".toList ++ (b ++ '(' :: (inside ++ ')' :: rest)) := by simp
    rw [htext]
    refine (bind_of_some (exactly_append "Parameter" _)).trans ?_
    rw [bind_of_some (skip_blanks hb (by decide) _)]
    exact hread
  · rw [Field.parameterMetadata, foldlM_eq_ok_foldl hfields, ParameterKey.foldl_set hbalance hperm]
    exact if_neg hname

/-! ### Statements -/

namespace Statement

theorem describe_text (key : TextKey) (line : Nat) (value : String) (known : Metadata) :
    Field.describe known (.text line key.name value) = .ok (add known (.text key value)) := by
  cases key <;> rfl

theorem describe_parameters {values : List (List Field)} {ps : List ParameterMetadata}
    (h : List.Forall₂ (fun p fields => Field.parameterMetadata fields = .ok p) ps values)
    (line : Nat) (known : Metadata) :
    Field.describe known (.parameters line "parameters" values) =
      .ok (add known (.parameters ps)) := by
  have hall : values.mapM Field.parameterMetadata = .ok ps := mapM_eq_ok_iff.2 h.flip
  rw [Field.describe, hall]
  rfl

theorem add_comm {a b : Statement} (h : a.key ≠ b.key) (m : Metadata) :
    add (add m a) b = add (add m b) a := by
  cases a with
  | text key v =>
      cases b with
      | text other w => exact TextKey.set_comm (fun heq => h (congrArg some heq)) m v w
      | parameters ps => cases key <;> rfl
  | parameters ps =>
      cases b with
      | text other w => cases other <;> rfl
      | parameters others => contradiction

end Statement

theorem nodup_statements (m : Metadata) : ((statements m).map Statement.key).Nodup := by
  have hkeys : (statements m).map Statement.key =
      ((present (TextKey.get m) TextKey.all).map Prod.fst).map some ++ [none] := by
    rw [statements, List.map_append, List.map_map, List.map_map]
    rfl
  have hall : TextKey.all.Nodup := by decide
  rw [hkeys, List.nodup_append]
  refine ⟨(nodup_present hall).map fun _ _ => Option.some.inj, List.nodup_singleton _, ?_⟩
  intro a ha b hb
  obtain ⟨key, -, rfl⟩ := List.mem_map.1 ha
  rw [List.mem_singleton.1 hb]
  exact Option.some_ne_none key

/-- All that is declared is known once it is stated, in any order. -/
theorem foldl_add {m : Metadata} {stated : List Statement} (h : States m stated) :
    stated.foldl Statement.add {} = m := by
  have hall {others : List Statement} (hperm : others.Perm (statements m)) :
      others.foldl Statement.add {} = m := by
    rw [foldl_eq_of_perm hperm (nodup_statements m) fun _ _ known hne =>
      Statement.add_comm hne known]
    obtain ⟨version, title, description, language, parameters⟩ := m
    cases version <;> cases title <;> cases description <;> cases language <;> rfl
  rcases h with h | ⟨-, h⟩
  · exact hall h
  · have hfirst : ([Statement.parameters []] ++ stated).foldl Statement.add {} = m :=
      hall (List.perm_append_comm.trans h)
    exact hfirst

/-- A statement is read back as it is written. -/
theorem exists_statement {statement : Statement} (h : WritesStatement statement s)
    (hps : ∀ ps, statement = .parameters ps → ∀ p ∈ ps, p.name ≠ "" ∧ p.balance = none)
    (rest : List Char) :
    ∃ field, Field.parse origin (depth + 2) (s ++ rest) = some (field, rest) ∧
      ∀ known, Field.describe known field = .ok (Statement.add known statement) := by
  cases statement with
  | text key value =>
      obtain ⟨line, hline⟩ := Field.exists_parse_literal key.isWord h rest
      exact ⟨_, hline, Statement.describe_text key line value⟩
  | parameters ps =>
      obtain ⟨inside, hinside, h⟩ := h
      have hread : ∃ values, List.Forall₂ (fun p fields =>
            Field.parameterMetadata fields = .ok p) ps values ∧
          Enclosure (Field.parseParameter (Field.parse origin (depth + 1))) ']' rest values
            (inside ++ ']' :: rest) := by
        refine hinside.exists_enclosure (fun p hp u hu r => ?_) ']' rest
        obtain ⟨hname, hbalance⟩ := hps ps rfl p hp
        exact exists_parameter hname hbalance hu r
      obtain ⟨values, hvalues, hlist⟩ := hread
      have henclosed := hlist.enclosed
        (Field.advances_parseParameter (Field.advances_parse origin (depth + 1)))
        (Starts.exactly rfl (by decide)).bind isBracket_square "["
      have hfield : ∃ line, Field.parse origin (depth + 2) (s ++ rest) =
          some (.parameters line "parameters" values, rest) := by
        refine Field.exists_parse_of_isLabelled (by decide) h ⟨'[', _, rfl, by decide⟩
          fun line => ?_
        have hnone (t : List Char) : Field.parseText line "parameters" ('[' :: t) = none :=
          map_of_none (stringLiteral_of_ne (by decide) t)
        rw [List.cons_append, List.append_assoc, orElse_of_none (hnone _)]
        exact map_eq_some_iff.2 ⟨values, henclosed, rfl⟩
      obtain ⟨line, hline⟩ := hfield
      exact ⟨_, hline, Statement.describe_parameters hvalues line⟩

/-! ### Pragmas -/

theorem eq_of_parameters_mem {m : Metadata} {stated : List Statement} {ps : List ParameterMetadata}
    (h : States m stated) (hps : .parameters ps ∈ stated) : ps = m.parameters := by
  have hmem : .parameters ps ∈ statements m := by
    rcases h with h | ⟨-, h⟩
    · exact h.subset hps
    · exact h.subset (List.mem_append_left _ hps)
  rcases List.mem_append.1 hmem with htext | hlast
  · obtain ⟨t, -, ht⟩ := List.mem_map.1 htext
    cases ht
  · exact Statement.parameters.inj (List.mem_singleton.1 hlast)

/-- A pragma is read back as what it states. -/
theorem exists_pragma {m : Metadata} (hm : ∀ p ∈ m.parameters, p.name ≠ "" ∧ p.balance = none)
    (h : WritesPragma m s) (rest : List Char) :
    ∃ fields, pragma (s ++ rest) = some (fields, rest) ∧
      ∀ line, pragmaMetadata line fields = .ok m := by
  obtain ⟨b, stated, inside, hb, hstated, hinside, rfl⟩ := h
  have htext : pragmaWord.toList ++ (b ++ '(' :: (inside ++ [')'])) ++ rest =
      pragmaWord.toList ++ (b ++ '(' :: (inside ++ ')' :: rest)) := by simp
  rw [htext]
  generalize horigin : pragmaWord.toList ++ (b ++ '(' :: (inside ++ ')' :: rest)) = origin
  obtain ⟨depth, hdepth⟩ : ∃ depth, origin.length = depth + 1 := by
    rw [← horigin]
    exact ⟨_, rfl⟩
  have hread : ∃ fields, List.Forall₂ (fun statement field =>
        ∀ known, Field.describe known field = .ok (Statement.add known statement)) stated fields ∧
      Enclosure (Field.parse origin (depth + 2)) ')' rest fields (inside ++ ')' :: rest) := by
    refine hinside.exists_enclosure (fun statement hstatement u hu r => ?_) ')' rest
    refine exists_statement hu (fun ps hps => ?_) r
    have heq : ps = m.parameters := eq_of_parameters_mem hstated (hps ▸ hstatement)
    exact heq ▸ hm
  obtain ⟨fields, hfields, hlist⟩ := hread
  have henclosed := hlist.enclosed (Field.advances_parse origin (depth + 2))
    (Field.starts_parse origin (depth + 2)) isBracket_round "("
  have hopening (p : Parser (List Field)) :
      (do exactly pragmaWord; skip; p : Parser (List Field)) origin =
        p ('(' :: (inside ++ ')' :: rest)) := by
    rw [← horigin]
    exact (bind_of_some (exactly_append pragmaWord _)).trans
      (bind_of_some (skip_blanks hb (by decide) _))
  refine ⟨fields, bind_eq_some_iff.2 ⟨origin, origin, rfl, ?_⟩, fun line => ?_⟩
  · rw [hopening, hdepth]
    exact henclosed
  · have hadd : List.Forall₂ (fun statement field => ∀ known,
        ((Field.describe known field).mapError fun cause => (⟨line + field.line, cause⟩ : Flaw)) =
          .ok (Statement.add known statement)) stated fields :=
      hfields.imp fun _ _ hdescribe known => by rw [hdescribe]; rfl
    rw [pragmaMetadata, foldlM_eq_ok_foldl hadd, foldl_add hstated]

/-- What a pragma states, in front of a transaction, is what is read, whatever its values are. -/
theorem Program.parse_of_writesPragma {m : Metadata}
    (hm : ∀ p ∈ m.parameters, p.name ≠ "" ∧ p.balance = none) (h : WritesPragma m s) :
    parse (String.ofList s ++ "\ntransaction \x7b\x7d") = .ok
      { entry := some { kind := .transaction, parameters := [] }, pragma := some m } := by
  have htext : String.ofList s ++ "\ntransaction \x7b\x7d" =
      String.ofList (s ++ (['\n'] ++ "transaction \x7b\x7d".toList)) := by
    refine String.toList_inj.1 ?_
    simp
  obtain ⟨fields, hpragma, hmetadata⟩ :=
    exists_pragma hm h (['\n'] ++ "transaction \x7b\x7d".toList)
  obtain ⟨stop, line', start', hadd⟩ := exists_addText (Item.parse_of_pragma hpragma) 1 0 {}
  have hknown : add {} ⟨1, 0, stop, .pragma fields⟩ = .ok { pragma := some m } :=
    congrArg (Except.map fun known => ({ pragma := some known } : Program)) (hmetadata 1)
  rw [htext, parse_ofList, hadd, hknown]
  exact addText_transaction (by decide) rfl line' start'

/-- A title with a quote and a line feed in it, and a parameter. -/
def payment : Metadata where
  version := some "1.0.0"
  title := some "Pay \"all\"\nnow"
  parameters := [{ name := "amount", title := some "import X from 0x01" }]

/-- The same out of order, with commas behind the last items. -/
def paymentText : String :=
  "#interaction(title: \"Pay \\\"all\\\"\\nnow\", parameters: " ++
    "[Parameter(title: \"import X from 0x01\", name: \"amount\",),],\n  version : \"1.0.0\",)"

theorem writesPragma_payment : WritesPragma payment paymentText.toList := by
  have hlabelled (name value : String) :
      IsLabelled name (literal value) (name.toList ++ ':' :: ' ' :: literal value) :=
    ⟨[], [' '], isBlanks_nil, isBlanks_space, rfl⟩
  have hversion : WritesStatement (.text .version "1.0.0") "version : \"1.0.0\"".toList :=
    ⟨[' '], [' '], isBlanks_space, isBlanks_space, rfl⟩
  have hparameter : WritesParameter { name := "amount", title := some "import X from 0x01" }
      "Parameter(title: \"import X from 0x01\", name: \"amount\",)".toList :=
    ⟨[], [(.title, "import X from 0x01"), (.name, "amount")], _, isBlanks_nil, by decide,
      .cons isBlanks_nil (hlabelled "title" "import X from 0x01") (.cons isBlanks_nil isBlanks_space
        (hlabelled "name" "amount") (.comma isBlanks_nil isBlanks_nil)), rfl⟩
  have hparameters : WritesStatement (.parameters payment.parameters)
      ("parameters: [Parameter(title: \"import X from 0x01\", name: \"amount\",),]").toList :=
    ⟨_, .cons isBlanks_nil hparameter (.comma isBlanks_nil isBlanks_nil), [], [' '], isBlanks_nil,
      isBlanks_space, rfl⟩
  have hbreak : IsBlanks ['\n', ' ', ' '] := by decide
  exact ⟨[], [.text .title "Pay \"all\"\nnow", .parameters payment.parameters,
      .text .version "1.0.0"], _, isBlanks_nil, .inl (by decide),
    .cons isBlanks_nil (hlabelled "title" "Pay \"all\"\nnow") (.cons isBlanks_nil isBlanks_space
      hparameters (.cons isBlanks_nil hbreak hversion (.comma isBlanks_nil isBlanks_nil))),
    by decide +kernel⟩

theorem Program.parse_of_writesPragma_payment :
    parse (paymentText ++ "\ntransaction \x7b\x7d") = .ok
      { entry := some { kind := .transaction, parameters := [] }, pragma := some payment } := by
  have hparse := parse_of_writesPragma (by decide) writesPragma_payment
  rwa [String.ofList_toList] at hparse

end Source

end Interaction
