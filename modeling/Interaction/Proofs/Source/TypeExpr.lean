import Interaction.Proofs.Source.Listing
import Mathlib.Data.Bool.AllAny

/-!
# Types as they are written

A type is a nominal type with or without arguments, an array, a dictionary or an intersection, with
a sigil before it if it is a reference and question marks behind it if it is optional. It is written
without blanks, but for the one behind an entitlement, and read back to its end from any text that
does not go on with it.
-/

namespace Interaction

namespace Source

open Source.Parser Lexeme

/-- Words with dots between them. -/
structure Path where
  first : Word
  more : List Word := []

/-- What a reference is entitled to: any text up to a closing parenthesis. -/
structure Entitlement where
  text : List Char
  isOpen : ')' ∉ text

/-- A constant in decimal digits, at least one. -/
structure Numeral where
  text : List Char
  ne_nil : text ≠ []
  isDigit : ∀ c ∈ text, c.isDigit = true

/-- What stands before a type: nothing, or what makes it a reference. -/
inductive Sigil where
  | none
  | reference
  | entitled (entitlement : Entitlement)

mutual

/-- A type with its sigil and its question marks. -/
inductive TypeExpr where
  | mk (sigil : Sigil) (core : TypeCore) (marks : Nat)

inductive TypeCore where
  | nominal (path : Path) (arguments : List TypeExpr)
  | array (item : TypeExpr) (size : Option Numeral)
  | dictionary (key value : TypeExpr)
  | intersection (first : Path) (more : List Path)

end

def Path.text (path : Path) : List Char :=
  path.first.text.toList ++ path.more.flatMap fun word => '.' :: word.text.toList

def Sigil.text : Sigil → List Char
  | none => []
  | reference => ['&']
  | entitled entitlement => "auth(".toList ++ (entitlement.text ++ ") &".toList)

def Numeral.suffix : Option Numeral → List Char
  | none => []
  | some size => ';' :: size.text

mutual

def TypeExpr.text : TypeExpr → List Char
  | .mk sigil core marks => sigil.text ++ (core.text ++ List.replicate marks '?')

def TypeCore.text : TypeCore → List Char
  | .nominal path [] => path.text
  | .nominal path (type :: more) =>
    path.text ++ '<' :: (type.text ++ (TypeExpr.moreTexts more ++ ['>']))
  | .array item size => '[' :: (item.text ++ (Numeral.suffix size ++ [']']))
  | .dictionary key value => '\x7b' :: (key.text ++ ':' :: (value.text ++ ['\x7d']))
  | .intersection first more =>
    '\x7b' :: (first.text ++ ((more.flatMap fun path => ',' :: path.text) ++ ['\x7d']))

/-- Types that stand behind others. -/
def TypeExpr.moreTexts : List TypeExpr → List Char
  | [] => []
  | type :: more => ',' :: (type.text ++ TypeExpr.moreTexts more)

end

variable {s rest : List Char} {c k : Char} {text : String}

/-! ### Where a type ends -/

/-- Whether a text does not go on with a core it stands behind. -/
structure EndsCore (rest : List Char) : Prop where
  word : Stops (fun c => isWordChar c || c == '.') rest
  opening : Stops (fun c => c == '<' || c == '(') (rest.dropWhile isSpace)

/-- Whether a text does not go on with a type it stands behind. -/
structure EndsType (rest : List Char) : Prop extends EndsCore rest where
  mark : Stops (· == '?') rest

theorem EndsCore.of_not {c : Char} (hword : (isWordChar c || c == '.') = false)
    (hspace : isSpace c = false) (hopening : (c == '<' || c == '(') = false) (s : List Char) :
    EndsCore (c :: s) where
  word := stops_cons hword s
  opening := by
    rw [List.dropWhile_cons_of_neg (ne_true_of_eq_false hspace)]
    exact stops_cons hopening s

/-- The characters that stand behind the parts of a type and behind a type in a list. -/
def typeEnds : List Char :=
  [',', ':', ';', ')', ']', '\x7d', '>']

theorem endsType_cons (h : c ∈ typeEnds) (s : List Char) : EndsType (c :: s) := by
  have hall : ∀ c ∈ typeEnds, (isWordChar c || c == '.') = false ∧ isSpace c = false ∧
      (c == '<' || c == '(') = false ∧ (c == '?') = false :=
    List.all_iff_forall_prop.1 (by decide)
  obtain ⟨hword, hspace, hopening, hmark⟩ := hall c h
  refine ⟨.of_not hword hspace hopening s, ?_⟩
  rintro _ ⟨⟩
  exact hmark

theorem EndsType.core_marks (h : EndsType rest) (n : Nat) :
    EndsCore (List.replicate n '?' ++ rest) := by
  cases n with
  | zero => exact h.toEndsCore
  | succ n => exact .of_not (by decide) (by decide) (by decide) _

namespace TypeText

theorem space_of_not (h : isSpace c = false) (s : List Char) :
    space (c :: s) = some ((), c :: s) :=
  bind_eq_some_iff.2 ⟨[], c :: s, run_eq_some_iff.2 ⟨rfl, nofun, stops_cons h s⟩, rfl⟩

theorem spaced_cons (htext : text.toList = [c]) (h : isSpace c = false) (s : List Char) :
    spaced text (c :: s) = some ((), s) := by
  rw [spaced, bind_of_some (space_of_not h s)]
  exact exactly_cons htext s

theorem spaced_of_stops (htext : text.toList = [k])
    (h : Stops (· == k) (s.dropWhile isSpace)) : spaced text s = none := by
  have hspace : space s = some ((), s.dropWhile isSpace) := rfl
  change (space >>= fun _ => exactly text) s = none
  rw [bind_of_some hspace]
  generalize s.dropWhile isSpace = after at h
  cases after with
  | nil => rw [exactly, htext]; rfl
  | cons c v => exact exactly_of_ne htext (ne_of_beq_false (h c rfl)) v

/-! ### Paths -/

theorem stops_dots (h : Stops (fun c => isWordChar c || c == '.') rest) (words : List Word) :
    Stops isWordChar ((words.flatMap fun word => '.' :: word.text.toList) ++ rest) := by
  cases words with
  | nil =>
      intro c hc
      exact (Bool.or_eq_false_iff.1 (h c hc)).1
  | cons word words => exact stops_cons (by decide) _

/-- The words behind the first one of a path, each behind its dot. -/
theorem many_dotted (words : List Word) (h : Stops (fun c => isWordChar c || c == '.') rest) :
    ∃ found, many (exactly "." >>= fun _ => Lexeme.word)
      ((words.flatMap fun word => '.' :: word.text.toList) ++ rest) = some (found, rest) := by
  induction words with
  | nil =>
      refine ⟨[], many_of_none (bind_of_none ?_)⟩
      cases rest with
      | nil => rfl
      | cons c v =>
          have hc := (Bool.or_eq_false_iff.1 (h c rfl)).2
          exact exactly_of_ne rfl (ne_of_beq_false hc) v
  | cons word words ih =>
      obtain ⟨found, hfound⟩ := ih
      have hfirst : (exactly "." >>= fun _ => Lexeme.word)
          (((word :: words).flatMap fun word => '.' :: word.text.toList) ++ rest) =
            some (word.text, (words.flatMap fun word => '.' :: word.text.toList) ++ rest) := by
        rw [List.flatMap_cons, List.append_assoc]
        exact (bind_of_some (exactly_append "." _)).trans (word_text word (stops_dots h words))
      have hadvances : Advances (exactly "." >>= fun _ => Lexeme.word) :=
        .bind (.exactly (by decide)) fun _ => advances_word.consumes
      refine ⟨word.text :: found, ?_⟩
      rw [many_of_some hfirst (hadvances hfirst).2, hfound]
      rfl

theorem qualified_text (path : Path) (h : Stops (fun c => isWordChar c || c == '.') rest) :
    qualified (path.text ++ rest) = some ((), rest) := by
  obtain ⟨found, hfound⟩ := many_dotted path.more h
  rw [Path.text, List.append_assoc]
  exact bind_eq_some_iff.2 ⟨_, _, word_text path.first (stops_dots h path.more),
    bind_eq_some_iff.2 ⟨found, rest, hfound, rfl⟩⟩

/-! ### How a type starts -/

/-- The characters a core starts with. -/
def StartsCore (c : Char) : Prop :=
  isWordStart c = true ∨ c = '[' ∨ c = '\x7b'

theorem StartsCore.solid (h : StartsCore c) : Solid c := by
  rcases h with h | rfl | rfl
  · exact solid_of_isWordStart h
  · decide
  · decide

theorem StartsCore.ne (h : StartsCore c) (hk : isWordStart k = false)
    (hbracket : k ≠ '[' ∧ k ≠ '\x7b') : c ≠ k := by
  rintro rfl
  rcases h with h | h | h
  · rw [h] at hk
    cases hk
  · exact hbracket.1 h
  · exact hbracket.2 h

theorem exists_cons_word (h : IsWord s) : ∃ c v, s = c :: v ∧ isWordStart c = true := by
  cases s with
  | nil => exact h.elim
  | cons c v => exact ⟨c, v, rfl, h.1⟩

theorem exists_cons_path (path : Path) : ∃ c v, path.text = c :: v ∧ isWordStart c = true := by
  obtain ⟨c, v, hword, hc⟩ := exists_cons_word path.first.isWord
  rw [Path.text, hword]
  exact ⟨c, _, rfl, hc⟩

theorem exists_cons_nominal (path : Path) (types : List TypeExpr) :
    ∃ c v, (TypeCore.nominal path types).text = c :: v ∧ isWordStart c = true := by
  obtain ⟨c, v, hpath, hc⟩ := exists_cons_path path
  cases types with
  | nil => exact ⟨c, v, hpath, hc⟩
  | cons type more =>
      rw [TypeCore.text, hpath]
      exact ⟨c, _, rfl, hc⟩

theorem exists_cons_core (core : TypeCore) : ∃ c v, core.text = c :: v ∧ StartsCore c := by
  cases core with
  | nominal path types =>
      obtain ⟨c, v, htext, hc⟩ := exists_cons_nominal path types
      exact ⟨c, v, htext, .inl hc⟩
  | array item size => exact ⟨'[', _, rfl, .inr (.inl rfl)⟩
  | dictionary key value => exact ⟨'\x7b', _, rfl, .inr (.inr rfl)⟩
  | intersection first more => exact ⟨'\x7b', _, rfl, .inr (.inr rfl)⟩

theorem exists_cons_type (type : TypeExpr) : ∃ c v, type.text = c :: v ∧ Solid c := by
  obtain ⟨sigil, core, marks⟩ := type
  cases sigil with
  | none =>
      obtain ⟨c, v, hcore, hc⟩ := exists_cons_core core
      rw [TypeExpr.text, hcore]
      exact ⟨c, _, rfl, hc.solid⟩
  | reference => exact ⟨'&', _, rfl, by decide⟩
  | entitled entitlement => exact ⟨'a', _, rfl, by decide⟩

/-! ### Sigils -/

/-- A word is no entitlement, even if it is `auth` or starts so. -/
theorem authorization_word {w r : List Char} (hword : ∀ c ∈ w, isWordChar c = true)
    (hstop : Stops isWordChar r) (hopening : Stops (· == '(') (r.dropWhile isSpace)) :
    authorization (w ++ r) = none := by
  by_contra hsome
  obtain ⟨⟨⟨⟩, mid⟩, hread⟩ := Option.ne_none_iff_exists'.1 hsome
  obtain ⟨⟨⟩, after, hauth, hread⟩ := bind_eq_some_iff.1 hread
  obtain ⟨⟨⟩, _, hspaced, -⟩ := bind_eq_some_iff.1 hread
  have hsplit := exactly_eq_some_iff.1 hauth
  have hafter : ∃ w', after = w' ++ r ∧ ∀ c ∈ w', isWordChar c = true := by
    rcases List.append_eq_append_iff.1 hsplit with ⟨y, hw, hr⟩ | ⟨y, hw, hafter⟩
    · cases y with
      | nil => exact ⟨[], hr.symm, nofun⟩
      | cons d y =>
          have hd : isWordChar d = true := by
            have hall : ∀ c ∈ "auth".toList, isWordChar c = true :=
              List.all_eq_true.1 (by decide)
            exact hall d (hw ▸ List.mem_append_right _ (.head _))
          have hno := hstop d (hr ▸ rfl)
          rw [hd] at hno
          cases hno
    · exact ⟨y, hafter, fun c hc => hword c (hw ▸ List.mem_append_right _ hc)⟩
  obtain ⟨w', rfl, hw'⟩ := hafter
  have hnone : spaced "(" (w' ++ r) = none := by
    refine spaced_of_stops rfl ?_
    cases w' with
    | nil => exact hopening
    | cons d w' =>
        have hd := hw' d (.head _)
        have hspace : isSpace d = false := by
          rw [Bool.eq_false_iff]
          intro hspace
          simp only [isSpace, Bool.or_eq_true, beq_iff_eq] at hspace
          rcases hspace with ((rfl | rfl) | rfl) | rfl <;> exact absurd hd (by decide)
        rw [List.cons_append, List.dropWhile_cons_of_neg (ne_true_of_eq_false hspace)]
        rintro _ ⟨⟩
        refine beq_false_of_ne ?_
        rintro rfl
        exact absurd hd (by decide)
  rw [hnone] at hspaced
  cases hspaced

theorem authorization_path (path : Path) (hword : Stops (fun c => isWordChar c || c == '.') rest)
    (hopening : Stops (· == '(') (rest.dropWhile isSpace)) :
    authorization (path.text ++ rest) = none := by
  rw [Path.text, List.append_assoc]
  refine authorization_word path.first.isWord.isWordChar (stops_dots hword path.more) ?_
  cases path.more with
  | nil => exact hopening
  | cons word words => exact stops_cons (by decide) _

theorem authorization_core (core : TypeCore) (h : EndsCore rest) :
    authorization (core.text ++ rest) = none := by
  cases core with
  | nominal path arguments =>
      cases arguments with
      | nil =>
          exact authorization_path path h.word fun c hc =>
            (Bool.or_eq_false_iff.1 (h.opening c hc)).2
      | cons type more =>
          rw [TypeCore.text, List.append_assoc]
          exact authorization_path path (stops_cons (by decide) _) (stops_cons (by decide) _)
  | array item size => exact bind_of_none (exactly_of_ne rfl (by decide) _)
  | dictionary key value => exact bind_of_none (exactly_of_ne rfl (by decide) _)
  | intersection first more => exact bind_of_none (exactly_of_ne rfl (by decide) _)

theorem authorization_text (entitlement : Entitlement) (s : List Char) :
    authorization ((Sigil.entitled entitlement).text ++ s) = some ((), '&' :: s) := by
  have hrun : run (· != ')') (entitlement.text ++ ')' :: ' ' :: '&' :: s) =
      some (entitlement.text, ')' :: ' ' :: '&' :: s) := by
    refine run_eq_some_iff.2 ⟨rfl, ?_, stops_cons (by decide) _⟩
    intro c hc
    rw [bne_iff_ne]
    rintro rfl
    exact entitlement.isOpen hc
  have hspace : space (' ' :: '&' :: s) = some ((), '&' :: s) := rfl
  rw [Sigil.text, List.append_assoc, List.append_assoc]
  change authorization ("auth".toList ++ '(' :: (entitlement.text ++ ')' :: ' ' :: '&' :: s)) = _
  have hopening (s : List Char) : spaced "(" ('(' :: s) = some ((), s) :=
    spaced_cons rfl (by decide) _
  rw [authorization, bind_of_some (exactly_append "auth" _), bind_of_some (hopening _),
    bind_of_some hrun, bind_of_some (exactly_cons rfl _)]
  exact hspace

theorem ampersand_core (core : TypeCore) (rest : List Char) :
    ampersand ('&' :: (core.text ++ rest)) = some ((), core.text ++ rest) := by
  obtain ⟨c, v, hcore, hc⟩ := exists_cons_core core
  rw [hcore]
  rw [ampersand, bind_of_some (exactly_cons rfl _)]
  exact space_of_not hc.solid.1 _

/-- A sigil is read up to the core behind it. -/
theorem exists_sigil (sigil : Sigil) (core : TypeCore) (h : EndsCore rest) :
    ∃ entitled mid referenced,
      maybe authorization (sigil.text ++ (core.text ++ rest)) = some (entitled, mid) ∧
        maybe ampersand mid = some (referenced, core.text ++ rest) := by
  cases sigil with
  | none =>
      have hampersand : ampersand (core.text ++ rest) = none := by
        obtain ⟨c, v, hcore, hc⟩ := exists_cons_core core
        rw [hcore]
        exact bind_of_none (exactly_of_ne rfl (hc.ne (by decide) (by decide)) _)
      exact ⟨.none, _, .none, maybe_of_none (authorization_core core h), maybe_of_none hampersand⟩
  | reference =>
      have hnone : authorization ('&' :: (core.text ++ rest)) = none :=
        bind_of_none (exactly_of_ne rfl (by decide) _)
      exact ⟨.none, _, some (), maybe_of_none hnone, maybe_of_some (ampersand_core core rest)⟩
  | entitled entitlement =>
      exact ⟨some (), _, some (), maybe_of_some (authorization_text entitlement _),
        maybe_of_some (ampersand_core core rest)⟩

/-! ### Cores -/

/-- Whether a parser reads all types that are written in fewer than so many characters. -/
def ReadsTypes (inner : Parser Unit) (length : Nat) : Prop :=
  ∀ type : TypeExpr, type.text.length < length → ∀ rest, EndsType rest →
    inner (type.text ++ rest) = some ((), rest)

variable {inner : Parser Unit} {length : Nat}

theorem space_type (type : TypeExpr) (rest : List Char) :
    space (type.text ++ rest) = some ((), type.text ++ rest) := by
  obtain ⟨c, v, htype, hc⟩ := exists_cons_type type
  rw [htype]
  exact space_of_not hc.1 _

theorem space_path (path : Path) (rest : List Char) :
    space (path.text ++ rest) = some ((), path.text ++ rest) := by
  obtain ⟨c, v, hpath, hc⟩ := exists_cons_path path
  rw [hpath]
  exact space_of_not (solid_of_isWordStart hc).1 _

section Commas

variable {β : Type} {item : Parser Unit} {write : β → List Char}

/-- What stands behind the first item of a list without brackets. -/
def moreItems (write : β → List Char) (items : List β) : List Char :=
  items.flatMap fun i => ',' :: write i

/-- Items with commas between them are read up to a character that is no comma, if each is read up
to the comma or the character behind it. -/
theorem commas_items (hcomma : k ≠ ',') (hk : isSpace k = false)
    (hspace : ∀ i r, space (write i ++ r) = some ((), write i ++ r)) {first : β} {more : List β}
    (hread : ∀ i ∈ first :: more, ∀ c v, c ∈ [',', k] →
      item (write i ++ c :: v) = some ((), c :: v))
    (s : List Char) :
    commas item (write first ++ (moreItems write more ++ k :: s)) = some ((), k :: s) := by
  have hafter (i : β) (hi : i ∈ first :: more) (items : List β) :
      item (write i ++ (moreItems write items ++ k :: s)) =
        some ((), moreItems write items ++ k :: s) := by
    cases items with
    | nil => exact hread i hi k s (.tail _ (.head _))
    | cons next items => exact hread i hi ',' _ (.head _)
  have hmore : ∀ items ⊆ more, ∃ found, many (do spaced ","; space; item)
      (moreItems write items ++ k :: s) = some (found, k :: s) := by
    intro items
    induction items with
    | nil =>
        intro _
        refine ⟨[], many_of_none (bind_of_none (spaced_of_stops rfl ?_))⟩
        change Stops _ ((k :: s).dropWhile isSpace)
        rw [List.dropWhile_cons_of_neg (ne_true_of_eq_false hk)]
        rintro _ ⟨⟩
        exact beq_false_of_ne hcomma
    | cons i items ih =>
        intro hsub
        obtain ⟨found, hfound⟩ := ih fun j hj => hsub (.tail _ hj)
        have hi : i ∈ first :: more := .tail _ (hsub (.head _))
        have hfirst : (do spaced ","; space; item : Parser Unit)
            (moreItems write (i :: items) ++ k :: s) =
              some ((), moreItems write items ++ k :: s) := by
          rw [moreItems, List.flatMap_cons, List.append_assoc, List.cons_append,
            bind_of_some (spaced_cons rfl (by decide) _), bind_of_some (hspace i _)]
          exact hafter i hi items
        have hshorter : (moreItems write items ++ k :: s).length <
            (moreItems write (i :: items) ++ k :: s).length := by
          simp only [moreItems, List.flatMap_cons, List.length_append, List.length_cons]
          omega
        refine ⟨() :: found, ?_⟩
        rw [many_of_some hfirst hshorter, hfound]
        rfl
  obtain ⟨found, hfound⟩ := hmore more (fun _ => id)
  exact bind_eq_some_iff.2 ⟨(), _, hafter first (.head _) more,
    bind_eq_some_iff.2 ⟨found, _, hfound, rfl⟩⟩

end Commas

theorem moreTexts_eq (types : List TypeExpr) :
    TypeExpr.moreTexts types = moreItems TypeExpr.text types := by
  induction types with
  | nil => rfl
  | cons type more ih => rw [TypeExpr.moreTexts, ih, moreItems, moreItems, List.flatMap_cons]; rfl

/-- A path is a type. -/
theorem ReadsTypes.path (h : ReadsTypes inner length) (path : Path)
    (hlength : path.text.length < length) (hends : EndsType rest) :
    inner (path.text ++ rest) = some ((), rest) := by
  have htext : (TypeExpr.mk .none (.nominal path []) 0).text = path.text := by
    simp [TypeExpr.text, TypeCore.text, Sigil.text]
  have hread := h (.mk .none (.nominal path []) 0) (htext ▸ hlength) rest hends
  rwa [htext] at hread

theorem not_isSpace_of_isDigit (h : c.isDigit = true) : isSpace c = false := by
  rw [Bool.eq_false_iff]
  intro hspace
  simp only [isSpace, Bool.or_eq_true, beq_iff_eq] at hspace
  rcases hspace with ((rfl | rfl) | rfl) | rfl <;> exact absurd h (by decide)

/-- The size of an array, from its semicolon on. -/
def sizeSuffix : Parser Unit := do
  exactly ";"
  space
  let _ ← one Char.isDigit
  let _ ← run Char.isDigit
  space

theorem sizeSuffix_text (size : Numeral) (rest : List Char) :
    sizeSuffix (Numeral.suffix (some size) ++ ']' :: rest) = some ((), ']' :: rest) := by
  obtain ⟨digits, hne, hdigits⟩ := size
  obtain ⟨d, more, rfl⟩ := List.exists_cons_of_ne_nil hne
  have hd := hdigits d (.head _)
  have hrun : run Char.isDigit (more ++ ']' :: rest) = some (more, ']' :: rest) :=
    run_eq_some_iff.2 ⟨rfl, fun c hc => hdigits c (.tail _ hc), stops_cons (by decide) _⟩
  have hone : one Char.isDigit (d :: (more ++ ']' :: rest)) = some (d, more ++ ']' :: rest) :=
    one_eq_some_iff.2 ⟨rfl, hd⟩
  have hspace := space_of_not (not_isSpace_of_isDigit hd) (more ++ ']' :: rest)
  change sizeSuffix (';' :: d :: (more ++ ']' :: rest)) = _
  rw [sizeSuffix, bind_of_some (exactly_cons rfl _), bind_of_some hspace, bind_of_some hone,
    bind_of_some hrun]
  exact space_of_not (by decide) _

theorem array_text (h : ReadsTypes inner length) (item : TypeExpr) (size : Option Numeral)
    (hlength : item.text.length < length) (rest : List Char) :
    array inner ((TypeCore.array item size).text ++ rest) = some ((), rest) := by
  have hitem : inner (item.text ++ (Numeral.suffix size ++ ']' :: rest)) =
      some ((), Numeral.suffix size ++ ']' :: rest) := by
    refine h item hlength _ ?_
    cases size with
    | none => exact endsType_cons (by decide) _
    | some size => exact endsType_cons (by decide) _
  have hspace : space (Numeral.suffix size ++ ']' :: rest) =
      some ((), Numeral.suffix size ++ ']' :: rest) := by
    cases size with
    | none => exact space_of_not (by decide) _
    | some size => exact space_of_not (by decide) _
  have hsize : ∃ found, maybe sizeSuffix (Numeral.suffix size ++ ']' :: rest) =
      some (found, ']' :: rest) := by
    cases size with
    | none =>
        have hnone : sizeSuffix (']' :: rest) = none :=
          bind_of_none (exactly_of_ne rfl (by decide) _)
        exact ⟨none, maybe_of_none hnone⟩
    | some size =>
        exact ⟨some (), maybe_of_some (sizeSuffix_text size rest)⟩
  obtain ⟨found, hsize⟩ := hsize
  have htext : (TypeCore.array item size).text ++ rest =
      '[' :: (item.text ++ (Numeral.suffix size ++ ']' :: rest)) := by
    simp [TypeCore.text]
  rw [htext]
  rw [array, bind_of_some (exactly_cons rfl _), bind_of_some (space_type item _),
    bind_of_some hitem, bind_of_some hspace]
  exact (bind_of_some hsize).trans (exactly_cons rfl rest)

theorem dictionary_text (h : ReadsTypes inner length) (key value : TypeExpr)
    (hkey : key.text.length < length) (hvalue : value.text.length < length) (rest : List Char) :
    dictionary inner ((TypeCore.dictionary key value).text ++ rest) = some ((), rest) := by
  have hfirst : inner (key.text ++ ':' :: (value.text ++ '\x7d' :: rest)) =
      some ((), ':' :: (value.text ++ '\x7d' :: rest)) :=
    h key hkey _ (endsType_cons (by decide) _)
  have hsecond : inner (value.text ++ '\x7d' :: rest) = some ((), '\x7d' :: rest) :=
    h value hvalue _ (endsType_cons (by decide) _)
  have htext : (TypeCore.dictionary key value).text ++ rest =
      '\x7b' :: (key.text ++ ':' :: (value.text ++ '\x7d' :: rest)) := by
    simp [TypeCore.text]
  rw [htext]
  have hcolon (s : List Char) : spaced ":" (':' :: s) = some ((), s) :=
    spaced_cons rfl (by decide) _
  rw [dictionary, bind_of_some (exactly_cons rfl _), bind_of_some (space_type key _),
    bind_of_some hfirst, bind_of_some (hcolon _), bind_of_some (space_type value _),
    bind_of_some hsecond]
  exact spaced_cons rfl (by decide) _

theorem toList_intersection (first : Path) (more : List Path) (rest : List Char) :
    (TypeCore.intersection first more).text ++ rest =
      '\x7b' :: (first.text ++ (moreItems Path.text more ++ '\x7d' :: rest)) := by
  simp [TypeCore.text, moreItems]

theorem endsType_moreItems {β : Type} (write : β → List Char) (items : List β) (h : k ∈ typeEnds)
    (rest : List Char) : EndsType (moreItems write items ++ k :: rest) := by
  cases items with
  | nil => exact endsType_cons h _
  | cons item items => exact endsType_cons (by decide) _

/-- An intersection is no dictionary, since no colon stands behind its first path. -/
theorem dictionary_intersection (h : ReadsTypes inner length) (first : Path) (more : List Path)
    (hfirst : first.text.length < length) (rest : List Char) :
    dictionary inner ((TypeCore.intersection first more).text ++ rest) = none := by
  have hpath : inner (first.text ++ (moreItems Path.text more ++ '\x7d' :: rest)) =
      some ((), moreItems Path.text more ++ '\x7d' :: rest) :=
    h.path first hfirst (endsType_moreItems _ _ (by decide) _)
  have hcolon : spaced ":" (moreItems Path.text more ++ '\x7d' :: rest) = none := by
    refine spaced_of_stops rfl ?_
    cases more with
    | nil => exact stops_cons (by decide) _
    | cons path more => exact stops_cons (by decide) _
  rw [toList_intersection]
  rw [dictionary, bind_of_some (exactly_cons rfl _), bind_of_some (space_path first _),
    bind_of_some hpath]
  exact bind_of_none hcolon

theorem intersection_text (first : Path) (more : List Path) (rest : List Char) :
    intersection ((TypeCore.intersection first more).text ++ rest) = some ((), rest) := by
  have hpaths : commas qualified
      (first.text ++ (moreItems Path.text more ++ '\x7d' :: rest)) = some ((), '\x7d' :: rest) := by
    refine commas_items (by decide) (by decide) space_path ?_ rest
    intro path _ c v hc
    have hends : ∀ c ∈ [',', '\x7d'], c ∈ typeEnds := List.all_iff_forall_prop.1 (by decide)
    exact qualified_text path (endsType_cons (hends c hc) v).word
  rw [toList_intersection]
  rw [intersection, bind_of_some (exactly_cons rfl _), bind_of_some (space_path first _),
    bind_of_some hpaths]
  exact spaced_cons rfl (by decide) _

/-- The arguments of a nominal type, from their opening bracket on. -/
def arguments (inner : Parser Unit) : Parser Unit := do
  spaced "<"
  space
  commas inner
  spaced ">"

theorem nominal_text (h : ReadsTypes inner length) (path : Path) (types : List TypeExpr)
    (hlength : ∀ type ∈ types, type.text.length < length) (hends : EndsCore rest) :
    nominal inner ((TypeCore.nominal path types).text ++ rest) = some ((), rest) := by
  cases types with
  | nil =>
      have hnone : arguments inner rest = none := bind_of_none (spaced_of_stops rfl fun c hc =>
        (Bool.or_eq_false_iff.1 (hends.opening c hc)).1)
      refine (bind_of_some (qualified_text path hends.word)).trans ?_
      exact bind_of_some (maybe_of_none hnone)
  | cons type more =>
      have hcommas : commas inner (type.text ++ (moreItems TypeExpr.text more ++ '>' :: rest)) =
          some ((), '>' :: rest) := by
        refine commas_items (by decide) (by decide) space_type ?_ rest
        intro other hother c v hc
        have hends : ∀ c ∈ [',', '>'], c ∈ typeEnds := List.all_iff_forall_prop.1 (by decide)
        exact h other (hlength other hother) _ (endsType_cons (hends c hc) v)
      have harguments : arguments inner
          ('<' :: (type.text ++ (moreItems TypeExpr.text more ++ '>' :: rest))) =
            some ((), rest) := by
        refine (bind_of_some (spaced_cons rfl (by decide) _)).trans ?_
        rw [bind_of_some (space_type type _), bind_of_some hcommas]
        exact spaced_cons rfl (by decide) _
      have htext : (TypeCore.nominal path (type :: more)).text ++ rest =
          path.text ++ '<' :: (type.text ++ (moreItems TypeExpr.text more ++ '>' :: rest)) := by
        simp [TypeCore.text, moreTexts_eq]
      rw [htext]
      refine (bind_of_some (qualified_text path (stops_cons (by decide) _))).trans ?_
      exact bind_of_some (maybe_of_some harguments)

/-! ### Types -/

/-- Any core, by the first alternative that reads it. -/
def core (inner : Parser Unit) : Parser Unit :=
  array inner <|> dictionary inner <|> intersection <|> nominal inner

theorem array_of_ne (h : c ≠ '[') (s : List Char) : array inner (c :: s) = none :=
  bind_of_none (exactly_of_ne rfl h s)

theorem dictionary_of_ne (h : c ≠ '\x7b') (s : List Char) : dictionary inner (c :: s) = none :=
  bind_of_none (exactly_of_ne rfl h s)

theorem intersection_of_ne (h : c ≠ '\x7b') (s : List Char) : intersection (c :: s) = none :=
  bind_of_none (exactly_of_ne rfl h s)

/-- What starts with a word can only be a nominal type. -/
theorem core_of_isWordStart (h : isWordStart c = true) (s : List Char) :
    core inner (c :: s) = nominal inner (c :: s) := by
  have hne {k : Char} (hk : isWordStart k = false) : c ≠ k := by
    rintro rfl
    rw [h] at hk
    cases hk
  rw [core, orElse_of_none (array_of_ne (hne (by decide)) s),
    orElse_of_none (dictionary_of_ne (hne (by decide)) s),
    orElse_of_none (intersection_of_ne (hne (by decide)) s)]

theorem length_lt_of_mem {types : List TypeExpr} {type : TypeExpr} (h : type ∈ types) :
    type.text.length < (moreItems TypeExpr.text types).length := by
  obtain ⟨before, after, rfl⟩ := List.append_of_mem h
  simp only [moreItems, List.flatMap_append, List.flatMap_cons, List.length_append,
    List.length_cons]
  omega

theorem core_text (h : ReadsTypes inner length) (c : TypeCore) (hlength : c.text.length ≤ length)
    (hends : EndsCore rest) : core inner (c.text ++ rest) = some ((), rest) := by
  cases c with
  | nominal path types =>
      have htypes : ∀ type ∈ types, type.text.length < length := by
        cases types with
        | nil => nofun
        | cons first more =>
            intro type htype
            have hshorter : type.text.length < (moreItems TypeExpr.text (first :: more)).length :=
              length_lt_of_mem htype
            refine Nat.lt_of_lt_of_le hshorter (Nat.le_trans ?_ hlength)
            simp only [TypeCore.text, moreTexts_eq, moreItems, List.flatMap_cons,
              List.length_append, List.length_cons]
            omega
      rw [← nominal_text h path types htypes hends]
      obtain ⟨c, v, hpath, hc⟩ := exists_cons_nominal path types
      rw [hpath]
      exact core_of_isWordStart hc _
  | array item size =>
      rw [TypeCore.text, List.length_cons, List.length_append] at hlength
      exact orElse_of_some (array_text h item size (by omega) rest)
  | dictionary key value =>
      simp only [TypeCore.text, List.length_cons, List.length_append] at hlength
      have harray : array inner ((TypeCore.dictionary key value).text ++ rest) = none :=
        array_of_ne (by decide) _
      rw [core, orElse_of_none harray]
      exact orElse_of_some (dictionary_text h key value (by omega) (by omega) rest)
  | intersection first more =>
      simp only [TypeCore.text, List.length_cons, List.length_append] at hlength
      have harray : array inner ((TypeCore.intersection first more).text ++ rest) = none :=
        array_of_ne (by decide) _
      rw [core, orElse_of_none harray,
        orElse_of_none (dictionary_intersection h first more (by omega) rest)]
      exact orElse_of_some (intersection_text first more rest)

/-- Types are read down to a depth, by induction on it: what stands in a type is written in fewer
characters than the type. -/
theorem readsTypes_nested (depth : Nat) : ReadsTypes (nested depth) depth := by
  induction depth with
  | zero => exact fun type htype => absurd htype (Nat.not_lt_zero _)
  | succ depth ih =>
      rintro ⟨sigil, c, marks⟩ hlength rest hends
      have hcore : c.text.length ≤ depth := by
        simp only [TypeExpr.text, List.length_append] at hlength
        omega
      have hmarks : run (· == '?') (List.replicate marks '?' ++ rest) =
          some (List.replicate marks '?', rest) := by
        refine run_eq_some_iff.2 ⟨rfl, ?_, hends.mark⟩
        intro d hd
        rw [List.eq_of_mem_replicate hd]
        rfl
      obtain ⟨entitled, mid, referenced, hentitled, hreferenced⟩ :=
        exists_sigil sigil c (hends.core_marks marks)
      rw [TypeExpr.text, List.append_assoc, List.append_assoc]
      refine (bind_of_some hentitled).trans ?_
      rw [bind_of_some hreferenced]
      refine (bind_of_some (core_text ih c hcore (hends.core_marks marks))).trans ?_
      exact bind_of_some hmarks

end TypeText

/-- A type is read back as it is written, up to a text that does not go on with it. -/
theorem typeText_text (type : TypeExpr) (h : EndsType rest) :
    typeText (type.text ++ rest) = some (String.ofList type.text, rest) := by
  have hnested : TypeText.nested ((type.text ++ rest).length + 1) (type.text ++ rest) =
      some ((), rest) := by
    refine TypeText.readsTypes_nested _ type ?_ rest h
    rw [List.length_append]
    omega
  have htake : (type.text ++ rest).take ((type.text ++ rest).length - rest.length) = type.text := by
    rw [List.length_append, Nat.add_sub_cancel, List.take_left]
  rw [typeText, matched, hnested, Option.map_some, Option.map_some, htake]

end Source

end Interaction
