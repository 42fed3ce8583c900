import Interaction.Json.Outline
import Interaction.Proofs.Json.Printer

/-!
# Reading written strings and numerals back

A string is read piece by piece: most characters are pieces themselves or behind a backslash, and
the control characters without a letter of their own come back as units of sixteen bits. A numeral
without a sign, a fraction and an exponent is read as the number it was written for, if that fits
sixty-four bits and nothing that could extend the numeral follows.
-/

namespace Interaction

namespace Decimal

theorem digits_head?_zero {n : Nat} (h : (digits n).head? = some '0') : n = 0 := by
  fun_induction digits n with
  | case1 n hn =>
      have hchar : digitChar n = '0' := Option.some.inj h
      have hvalue := congrArg digitValue hchar
      rwa [digitValue_digitChar hn] at hvalue
  | case2 n hn ih =>
      have hfirst : (digits (n / 10)).head? = some '0' := by
        rwa [List.head?_append_of_ne_nil _ (digits_ne_nil _)] at h
      have := ih hfirst
      omega

theorem le_foldl (ds : List Char) (n : Nat) :
    n ≤ ds.foldl (fun n c => n * 10 + digitValue c) n := by
  induction ds generalizing n with
  | nil => exact Nat.le_refl n
  | cons c ds ih =>
      have hmore := ih (n * 10 + digitValue c)
      rw [List.foldl_cons]
      omega

end Decimal

namespace Json

/-- Digits are taken to the last one if their number fits sixty-four bits. -/
theorem takeDigits_eq {ds : List Char} {n : Nat}
    (h : ds.foldl (fun n c => n * 10 + Decimal.digitValue c) n ≤ Decimal.wordMax) :
    takeDigits n ds = (ds.foldl (fun n c => n * 10 + Decimal.digitValue c) n, []) := by
  induction ds generalizing n with
  | nil => rfl
  | cons c ds ih =>
      rw [List.foldl_cons] at h ⊢
      have hfirst := Nat.le_trans (Decimal.le_foldl ds _) h
      rw [takeDigits]
      simp only [hfirst, if_true]
      exact ih h

theorem ofNumeral?_digits {n : Nat} (h : n ≤ Decimal.wordMax) :
    Number.ofNumeral? ⟨false, Decimal.digits n, none, none⟩ = some (.integer n) := by
  have hvalue : (Decimal.digits n).foldl (fun n c => n * 10 + Decimal.digitValue c) 0 = n :=
    Decimal.value_digits n
  have htaken : takeDigits 0 (Decimal.digits n) = (n, []) := by
    rw [takeDigits_eq (hvalue.symm ▸ h), hvalue]
  rw [Number.ofNumeral?]
  simp only [htaken, and_self, if_true]
  rfl

/-- Whether nothing follows that could extend a numeral. -/
def Delimits (rest : List Char) : Prop :=
  ∀ c ∈ rest.head?, c.isDigit = false ∧ c ≠ '.' ∧ c ≠ 'e' ∧ c ≠ 'E'

theorem Delimits.cons {c : Char} (h : c.isDigit = false ∧ c ≠ '.' ∧ c ≠ 'e' ∧ c ≠ 'E')
    (rest : List Char) : Delimits (c :: rest) := by
  intro d hd
  cases hd
  exact h

namespace Outline

variable {rest : List Char}

theorem takeDigits_append {ds : List Char} (hdigits : ∀ c ∈ ds, c.isDigit = true)
    (hrest : Stops rest) : takeDigits ((ds ++ rest).map some) = (ds, rest.map some) := by
  induction ds with
  | nil =>
      cases rest with
      | nil => rfl
      | cons c rest =>
          rw [List.nil_append, List.map_cons, takeDigits, hrest c rfl]
          rfl
  | cons d ds ih =>
      rw [List.cons_append, List.map_cons, takeDigits, hdigits d (.head _),
        ih fun c hc => hdigits c (.tail _ hc)]
      rfl

theorem digits?_digits (n : Nat) (hrest : Stops rest) :
    digits? ((Decimal.digits n ++ rest).map some) = some (Decimal.digits n, rest.map some) := by
  have htaken := takeDigits_append (fun _ => Decimal.isDigit_of_mem_digits (n := n)) hrest
  rw [digits?, htaken, if_neg (Decimal.digits_ne_nil n)]

theorem whole?_digits (n : Nat) (hrest : Stops rest) :
    whole? ((Decimal.digits n ++ rest).map some) = some (Decimal.digits n, rest.map some) := by
  have hzero : ¬ ((Decimal.digits n).head? = some '0' ∧ (Decimal.digits n).length ≠ 1) := by
    rintro ⟨hhead, hlength⟩
    rw [Decimal.digits_head?_zero hhead, Decimal.digits] at hlength
    exact hlength rfl
  rw [whole?, digits?_digits n hrest]
  exact if_neg hzero

/-- A numeral ends where nothing follows that could extend it. -/
theorem unsigned?_digits (n : Nat) (hrest : Delimits rest) :
    unsigned? false ((Decimal.digits n ++ rest).map some) =
      some (⟨false, Decimal.digits n, none, none⟩, rest.map some) := by
  have hstops : Stops rest := fun c hc => (hrest c hc).1
  have hfraction : fraction? (rest.map some) = some (none, rest.map some) := by
    cases rest with
    | nil => rfl
    | cons c rest =>
        rw [List.map_cons, fraction?.eq_def]
        split
        next hpoint =>
          have hc := (Option.some.inj (List.cons.inj hpoint).1)
          exact absurd hc (hrest c rfl).2.1
        next => rfl
  have hexponent : exponent? (rest.map some) = some (none, rest.map some) := by
    cases rest with
    | nil => rfl
    | cons c rest =>
        rw [List.map_cons, exponent?.eq_def]
        split
        next hlower =>
          have hc := (Option.some.inj (List.cons.inj hlower).1)
          exact absurd hc (hrest c rfl).2.2.1
        next hupper =>
          have hc := (Option.some.inj (List.cons.inj hupper).1)
          exact absurd hc (hrest c rfl).2.2.2
        next => rfl
  simp only [unsigned?, whole?_digits n hstops, Option.bind_eq_bind, Option.bind_some, hfraction,
    hexponent]
  rfl

/-! ### Strings -/

/-- The piece that a written character is read as. -/
def pieceOf (c : Char) : Piece :=
  if escapeChar c = [c] ∨ (escapeChar c).length = 2 then .char c else .unit c.toNat

/-- A character that is written as itself is read as itself. -/
theorem pieces?_plain {c : Char} (hquote : c ≠ '"') (hslash : c ≠ '\\') (hcontrol : ¬ c.toNat < 0x20)
    (input : List Symbol) :
    pieces? (some c :: input) =
      (pieces? input).map fun found => (.char c :: found.1, found.2) := by
  rw [pieces?.eq_def]
  split
  next heq => cases heq
  next heq => cases heq
  next heq => exact absurd (Option.some.inj (List.cons.inj heq).1) hquote
  next heq => exact absurd (Option.some.inj (List.cons.inj heq).1) hslash
  next heq => exact absurd (Option.some.inj (List.cons.inj heq).1) hslash
  next heq =>
    obtain ⟨hc, rfl⟩ := List.cons.inj heq
    cases hc
    rw [if_neg (not_or.2 ⟨hslash, hcontrol⟩)]

theorem unit?_control {c : Char} (h : c.toNat < 0x20) :
    unit? (some '0') (some '0') (some (Text.hexDigit (c.toNat / 16)))
      (some (Text.hexDigit (c.toNat % 16))) = some c.toNat := by
  have hzero : Text.hexValue? '0' = some 0 := by decide
  have hhigh : Text.hexValue? (Text.hexDigit (c.toNat / 16)) = some (c.toNat / 16) :=
    Text.hexValue?_hexDigit (by omega)
  have hlow : Text.hexValue? (Text.hexDigit (c.toNat % 16)) = some (c.toNat % 16) :=
    Text.hexValue?_hexDigit (by omega)
  simp only [unit?, Option.bind_eq_bind, Option.bind_some, hzero, hhigh, hlow]
  exact congrArg some (by omega)

theorem pieces?_escapeChar (c : Char) (input : List Symbol) :
    pieces? ((escapeChar c).map some ++ input) =
      (pieces? input).map fun found => (pieceOf c :: found.1, found.2) := by
  rw [pieceOf]
  unfold escapeChar
  split
  next h => rw [h]; rfl
  next hquote =>
    split
    next h => rw [h]; rfl
    next hslash =>
      iterate 5
        split
        · subst_vars
          rfl
      split
      next hcontrol =>
        rw [if_neg (by simp)]
        simp only [List.map_cons, List.map_nil, List.cons_append, List.nil_append]
        rw [pieces?, unit?_control hcontrol]
      next hcontrol =>
        rw [if_pos (.inl rfl)]
        exact pieces?_plain hquote hslash hcontrol input

theorem pieces?_flatMap (cs : List Char) (input : List Symbol) :
    pieces? ((cs.flatMap escapeChar).map some ++ some '"' :: input) =
      some (cs.map pieceOf, input) := by
  induction cs with
  | nil => rfl
  | cons c cs ih =>
      rw [List.flatMap_cons, List.map_append, List.append_assoc, pieces?_escapeChar, ih]
      rfl

/-- A unit that is no half of a surrogate pair is a character of its own. -/
theorem text?_unit {n : Nat} (h : n < 0x20) (ps : List Piece) :
    text? (.unit n :: ps) = (text? ps).map (Char.ofNat n :: ·) := by
  have hhigh : isHighSurrogate n = false := by
    simp only [isHighSurrogate, Bool.and_eq_false_iff, decide_eq_false_iff_not]
    omega
  have hlow : isLowSurrogate n = false := by
    simp only [isLowSurrogate, Bool.and_eq_false_iff, decide_eq_false_iff_not]
    omega
  rw [text?.eq_def]
  split
  next heq => cases heq
  next heq => cases heq
  next heq =>
    cases heq
    simp only [hhigh, hlow, Bool.false_and, Bool.or_self, Bool.false_eq_true, if_false]
  next heq =>
    cases heq
    simp only [hhigh, hlow, Bool.or_self, Bool.false_eq_true, if_false]
  next heq => cases heq

theorem text?_pieceOf (c : Char) (ps : List Piece) :
    text? (pieceOf c :: ps) = (text? ps).map (c :: ·) := by
  rw [pieceOf]
  split
  next => rw [text?]
  next h =>
    have hcontrol : c.toNat < 0x20 := by
      refine Classical.byContradiction fun hcontrol => h ?_
      unfold escapeChar
      repeat' split
      all_goals first
        | exact .inr rfl
        | exact .inl rfl
    rw [text?_unit hcontrol, Char.ofNat_toNat]

theorem text?_map (cs : List Char) : text? (cs.map pieceOf) = some cs := by
  induction cs with
  | nil => rfl
  | cons c cs ih => rw [List.map_cons, text?_pieceOf, ih, Option.map_some]

/-- A written string is read back, whatever follows it. -/
theorem string?_writeString (s : String) (rest : List Char) :
    string? ((s.toList.flatMap escapeChar ++ '"' :: rest).map some) =
      some (some s, rest.map some) := by
  rw [string?, List.map_append, List.map_cons, pieces?_flatMap, Option.map_some, text?_map,
    Option.map_some, String.ofList_toList]

end Outline

end Json

end Interaction
