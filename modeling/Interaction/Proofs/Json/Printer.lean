import Interaction.Json.Printer
import Mathlib.Data.List.Basic

/-!
# Reading written values back

A compactly written value can be told apart from the text that follows it, and from every other
value: strings are closed by a quote that none of their characters is written as, arrays by a
bracket, and a numeral ends where no more digits follow. Only plain values are looked at here, which
are made of strings, natural numbers, truth values and arrays.
-/

namespace Interaction

namespace Decimal

theorem isDigit_digitChar {d : Nat} (h : d < 10) : (digitChar d).isDigit = true :=
  (by decide : ∀ d < 10, (digitChar d).isDigit = true) d h

theorem isDigit_of_mem_digits {n : Nat} {c : Char} (h : c ∈ digits n) : c.isDigit = true := by
  fun_induction digits n with
  | case1 n hn =>
      rw [List.mem_singleton.1 h]
      exact isDigit_digitChar hn
  | case2 n hn ih =>
      rcases List.mem_append.1 h with h | h
      · exact ih h
      · rw [List.mem_singleton.1 h]
        exact isDigit_digitChar (Nat.mod_lt n (by omega))

theorem digits_ne_nil (n : Nat) : digits n ≠ [] := by
  rw [digits]
  split <;> simp

theorem digits_injective {m n : Nat} (h : digits m = digits n) : m = n := by
  rw [← value_digits m, h, value_digits]

end Decimal

namespace Json

/-- Whether no digit comes next. -/
def Stops (rest : List Char) : Prop :=
  ∀ c ∈ rest.head?, c.isDigit = false

theorem Stops.cons {c : Char} (h : c.isDigit = false) (rest : List Char) : Stops (c :: rest) := by
  intro d hd
  cases hd
  exact h

/-- A numeral ends where no digit follows. -/
theorem takeWhile_digits_append (n : Nat) {rest : List Char} (h : Stops rest) :
    (Decimal.digits n ++ rest).takeWhile Char.isDigit = Decimal.digits n := by
  have hall : ∀ c ∈ Decimal.digits n, c.isDigit = true := fun c => Decimal.isDigit_of_mem_digits
  rw [List.takeWhile_append_of_pos hall]
  cases rest with
  | nil => rw [List.takeWhile_nil, List.append_nil]
  | cons c more =>
      have hc : ¬ c.isDigit = true := by
        rw [h c rfl]
        decide
      rw [List.takeWhile_cons_of_neg hc, List.append_nil]

theorem digits_append_inj {m n : Nat} {rest rest' : List Char} (hrest : Stops rest)
    (hrest' : Stops rest') (h : Decimal.digits m ++ rest = Decimal.digits n ++ rest') :
    m = n ∧ rest = rest' := by
  have hsame : Decimal.digits m = Decimal.digits n := by
    rw [← takeWhile_digits_append m hrest, h, takeWhile_digits_append n hrest']
  rw [hsame] at h
  exact ⟨Decimal.digits_injective hsame, List.append_cancel_left h⟩

theorem isDigit_of_digits_append {n : Nat} {rest more : List Char} {c : Char}
    (h : Decimal.digits n ++ rest = c :: more) : c.isDigit = true := by
  cases hdigits : Decimal.digits n with
  | nil => exact absurd hdigits (Decimal.digits_ne_nil n)
  | cons d ds =>
      rw [hdigits, List.cons_append] at h
      refine Decimal.isDigit_of_mem_digits (n := n) ?_
      rw [hdigits, (List.cons.inj h).1]
      exact .head _

/-- The character that stands at the start of a written string, and what follows it. -/
def unescape : List Char → Option (Char × List Char)
  | '\\' :: 'u' :: '0' :: '0' :: high :: low :: rest => do
    let h ← Text.hexValue? high
    let l ← Text.hexValue? low
    return (Char.ofNat (16 * h + l), rest)
  | '\\' :: 'n' :: rest => some ('\n', rest)
  | '\\' :: 'r' :: rest => some ('\r', rest)
  | '\\' :: 't' :: rest => some ('\t', rest)
  | '\\' :: 'b' :: rest => some ('\x08', rest)
  | '\\' :: 'f' :: rest => some ('\x0c', rest)
  | '\\' :: c :: rest => some (c, rest)
  | c :: rest => some (c, rest)
  | [] => none

theorem unescape_of_ne {c : Char} (h : c ≠ '\\') (rest : List Char) :
    unescape (c :: rest) = some (c, rest) := by
  rw [unescape.eq_def]
  split <;> simp_all

/-- A control character is written by its number. -/
theorem unescape_control {c : Char} (h : c.toNat < 0x20) (rest : List Char) :
    unescape ('\\' :: 'u' :: '0' :: '0' :: Text.hexDigit (c.toNat / 16) ::
      Text.hexDigit (c.toNat % 16) :: rest) = some (c, rest) := by
  have hhigh : Text.hexValue? (Text.hexDigit (c.toNat / 16)) = some (c.toNat / 16) :=
    Text.hexValue?_hexDigit (by omega)
  have hlow : Text.hexValue? (Text.hexDigit (c.toNat % 16)) = some (c.toNat % 16) :=
    Text.hexValue?_hexDigit (by omega)
  have hback : 16 * (c.toNat / 16) + c.toNat % 16 = c.toNat := Nat.div_add_mod c.toNat 16
  rw [unescape, hhigh, hlow]
  simp only [Option.bind_eq_bind, Option.bind_some, hback, Char.ofNat_toNat]
  rfl

theorem unescape_escapeChar (c : Char) (rest : List Char) :
    unescape (escapeChar c ++ rest) = some (c, rest) := by
  unfold escapeChar
  split
  next h => rw [h]; rfl
  next =>
    split
    next h => rw [h]; rfl
    next hslash =>
      repeat' split
      · subst_vars; rfl
      · subst_vars; rfl
      · subst_vars; rfl
      · subst_vars; rfl
      · subst_vars; rfl
      next hcontrol => exact unescape_control hcontrol rest
      next => exact unescape_of_ne hslash rest

theorem escapeChar_append_inj {c d : Char} {rest rest' : List Char}
    (h : escapeChar c ++ rest = escapeChar d ++ rest') : c = d ∧ rest = rest' := by
  have hread := congrArg unescape h
  rw [unescape_escapeChar, unescape_escapeChar] at hread
  exact Prod.mk.inj (Option.some.inj hread)

/-- No character is written as the closing quote. -/
theorem escapeChar_append_ne (c : Char) (rest rest' : List Char) :
    escapeChar c ++ rest ≠ '"' :: rest' := by
  intro h
  have hread := congrArg unescape h
  rw [unescape_escapeChar, unescape_of_ne (by decide)] at hread
  obtain ⟨rfl, -⟩ := Prod.mk.inj (Option.some.inj hread)
  simp [escapeChar] at h

theorem flatMap_escapeChar_inj {cs ds rest rest' : List Char}
    (h : cs.flatMap escapeChar ++ '"' :: rest = ds.flatMap escapeChar ++ '"' :: rest') :
    cs = ds ∧ rest = rest' := by
  induction cs generalizing ds with
  | nil =>
      cases ds with
      | nil => exact ⟨rfl, (List.cons.inj h).2⟩
      | cons d ds =>
          rw [List.flatMap_cons, List.append_assoc] at h
          exact absurd h.symm (escapeChar_append_ne d _ _)
  | cons c cs ih =>
      rw [List.flatMap_cons, List.append_assoc] at h
      cases ds with
      | nil => exact absurd h (escapeChar_append_ne c _ _)
      | cons d ds =>
          rw [List.flatMap_cons, List.append_assoc] at h
          obtain ⟨hfirst, hmore⟩ := escapeChar_append_inj h
          obtain ⟨hrest, hend⟩ := ih hmore
          rw [hfirst, hrest]
          exact ⟨rfl, hend⟩

theorem writeString_inj {s t : String} {rest rest' : List Char}
    (h : writeString s rest = writeString t rest') : s = t ∧ rest = rest' := by
  obtain ⟨hchars, hrest⟩ := flatMap_escapeChar_inj (List.cons.inj h).2
  exact ⟨String.toList_inj.1 hchars, hrest⟩

/-- Values made of strings, natural numbers, truth values and arrays. -/
inductive IsPlain : Json → Prop
  | string (s : String) : IsPlain (.string s)
  | nat (n : Nat) : IsPlain (Json.nat n)
  | bool (b : Bool) : IsPlain (.bool b)
  | array {items : List Json} (h : ∀ item ∈ items, IsPlain item) : IsPlain (.array items)

theorem write_nat (layout : Layout) (depth n : Nat) (rest : List Char) :
    write layout depth (Json.nat n) rest = Decimal.digits n ++ rest := by
  simp [Json.nat, write, Number.text, Decimal.integer]

/-- The character that tells what kind of value begins, and none if it is a numeral. -/
def opening : Json → Option Char
  | .string _ => some '"'
  | .array _ => some '['
  | .bool true => some 't'
  | .bool false => some 'f'
  | _ => none

theorem opening_write {v : Json} (hv : v.IsPlain) (depth : Nat) (rest : List Char) :
    (write .compact depth v rest).head?.filter (fun c => !c.isDigit) = opening v := by
  cases hv with
  | string s => rfl
  | nat n =>
      rw [write_nat]
      cases hdigits : Decimal.digits n ++ rest with
      | nil => rfl
      | cons c more =>
          have hc := isDigit_of_digits_append hdigits
          simp [hc, opening, Json.nat]
  | bool b => cases b <;> rfl
  | @array items h => cases items <;> rfl

/-- What follows an item of an array is a comma or the closing bracket. -/
theorem stops_writeItems (depth : Nat) (items : List Json) (rest : List Char) :
    Stops (writeItems .compact depth items (']' :: rest)) := by
  cases items with
  | nil =>
      rw [writeItems]
      exact .cons (by decide) _
  | cons item more =>
      rw [writeItems]
      exact .cons (by decide) _

/-- Whether a written value determines the value and the rest. -/
def ReadsBack (v : Json) : Prop :=
  ∀ (w : Json) (depth depth' : Nat) (rest rest' : List Char), w.IsPlain → Stops rest →
    Stops rest' → write .compact depth v rest = write .compact depth' w rest' → v = w ∧ rest = rest'

theorem writeItems_inj {items others : List Json} (hitems : ∀ item ∈ items, ReadsBack item)
    (hothers : ∀ item ∈ others, item.IsPlain) {depth depth' : Nat} {rest rest' : List Char}
    (h : writeItems .compact depth items (']' :: rest) =
      writeItems .compact depth' others (']' :: rest')) : items = others ∧ rest = rest' := by
  induction items generalizing others with
  | nil =>
      cases others with
      | nil => exact ⟨rfl, (List.cons.inj h).2⟩
      | cons other more =>
          rw [writeItems, writeItems] at h
          exact absurd (List.cons.inj h).1 (by decide)
  | cons item items ih =>
      cases others with
      | nil =>
          rw [writeItems, writeItems] at h
          exact absurd (List.cons.inj h).1 (by decide)
      | cons other others =>
          rw [writeItems, writeItems] at h
          obtain ⟨rfl, hmore⟩ := hitems item (.head _) other depth depth' _ _
            (hothers other (.head _)) (stops_writeItems depth items rest)
            (stops_writeItems depth' others rest') (List.cons.inj h).2
          obtain ⟨rfl, hrest⟩ := ih (fun v hv => hitems v (.tail _ hv))
            (fun v hv => hothers v (.tail _ hv)) hmore
          exact ⟨rfl, hrest⟩

/-- No value starts with the bracket that closes an array. -/
theorem write_ne_closing {v : Json} (hv : v.IsPlain) (depth : Nat) (rest more : List Char) :
    write .compact depth v rest ≠ ']' :: more := by
  intro h
  have hopening := opening_write hv depth rest
  rw [h] at hopening
  cases hv with
  | string s => simp [opening] at hopening
  | nat n => simp [opening, Json.nat] at hopening
  | bool b => cases b <;> simp [opening] at hopening
  | array _ => simp [opening] at hopening

/-- An array is written like the items of one, but for its first character. -/
theorem write_array_cons (depth : Nat) (item : Json) (more : List Json) (rest : List Char) :
    ∃ inner, write .compact depth (.array (item :: more)) rest = '[' :: inner ∧
      writeItems .compact (depth + 1) (item :: more) (']' :: rest) = ',' :: inner :=
  ⟨_, by rw [write], by rw [writeItems]; rfl⟩

theorem write_array_inj {items others : List Json} (hitems : ∀ item ∈ items, ReadsBack item)
    (hplain : ∀ item ∈ items, item.IsPlain) (hothers : ∀ item ∈ others, item.IsPlain)
    {depth depth' : Nat} {rest rest' : List Char}
    (h : write .compact depth (.array items) rest = write .compact depth' (.array others) rest') :
    items = others ∧ rest = rest' := by
  cases items with
  | nil =>
      cases others with
      | nil => exact ⟨rfl, (List.cons.inj (List.cons.inj h).2).2⟩
      | cons other others =>
          have hinner : ']' :: rest = write .compact (depth' + 1) other _ := (List.cons.inj h).2
          exact absurd hinner.symm (write_ne_closing (hothers other (.head _)) _ _ _)
  | cons item items =>
      cases others with
      | nil =>
          have hinner : write .compact (depth + 1) item _ = ']' :: rest' := (List.cons.inj h).2
          exact absurd hinner (write_ne_closing (hplain item (.head _)) _ _ _)
      | cons other others =>
          obtain ⟨inner, harray, hlist⟩ := write_array_cons depth item items rest
          obtain ⟨inner', harray', hlist'⟩ := write_array_cons depth' other others rest'
          rw [harray, harray'] at h
          rw [(List.cons.inj h).2] at hlist
          exact writeItems_inj hitems hothers (hlist.trans hlist'.symm)

theorem readsBack_string (s : String) : ReadsBack (.string s) := by
  intro w depth depth' rest rest' hw hrest hrest' h
  have hopening := opening_write hw depth' rest'
  rw [← h, opening_write (.string s)] at hopening
  cases hw with
  | string t =>
      obtain ⟨rfl, hend⟩ := writeString_inj h
      exact ⟨rfl, hend⟩
  | nat n => cases hopening
  | bool b => cases b <;> simp [opening] at hopening
  | array _ => simp [opening] at hopening

theorem readsBack_nat (n : Nat) : ReadsBack (Json.nat n) := by
  intro w depth depth' rest rest' hw hrest hrest' h
  have hopening := opening_write hw depth' rest'
  rw [← h, opening_write (.nat n)] at hopening
  cases hw with
  | string t => cases hopening
  | nat m =>
      rw [write_nat, write_nat] at h
      obtain ⟨rfl, hend⟩ := digits_append_inj hrest hrest' h
      exact ⟨rfl, hend⟩
  | bool b => cases b <;> cases hopening
  | array _ => cases hopening

theorem readsBack_bool (b : Bool) : ReadsBack (.bool b) := by
  intro w depth depth' rest rest' hw hrest hrest' h
  have hopening := opening_write hw depth' rest'
  rw [← h, opening_write (.bool b)] at hopening
  cases hw with
  | string t => cases b <;> simp [opening] at hopening
  | nat m => cases b <;> cases hopening
  | bool c =>
      cases b <;> cases c <;> simp [opening] at hopening
      · simpa [write] using h
      · simpa [write] using h
  | array _ => cases b <;> simp [opening] at hopening

theorem readsBack_array {items : List Json} (hplain : ∀ item ∈ items, item.IsPlain)
    (hitems : ∀ item ∈ items, ReadsBack item) : ReadsBack (.array items) := by
  intro w depth depth' rest rest' hw hrest hrest' h
  have hopening := opening_write hw depth' rest'
  rw [← h, opening_write (.array hplain)] at hopening
  cases hw with
  | string t => simp [opening] at hopening
  | nat m => cases hopening
  | bool b => cases b <;> simp [opening] at hopening
  | array hothers =>
      obtain ⟨rfl, hend⟩ := write_array_inj hitems hplain hothers h
      exact ⟨rfl, hend⟩

/-- A written plain value determines the value and what follows it. -/
theorem readsBack {v : Json} (hv : v.IsPlain) : ReadsBack v := by
  induction hv with
  | string s => exact readsBack_string s
  | nat n => exact readsBack_nat n
  | bool b => exact readsBack_bool b
  | array hplain ih => exact readsBack_array hplain ih

/-- Plain values that are written the same are the same. -/
theorem compress_inj {v w : Json} (hv : v.IsPlain) (hw : w.IsPlain)
    (h : v.compress = w.compress) : v = w := by
  rw [compress, compress, render, render, String.ofList_inj] at h
  exact (readsBack hv w 0 0 [] [] hw nofun nofun h).1

theorem isPlain_strings (items : List String) : (strings items).IsPlain := by
  refine .array ?_
  intro item hitem
  obtain ⟨s, -, rfl⟩ := List.mem_map.1 hitem
  exact .string s

end Json

end Interaction
