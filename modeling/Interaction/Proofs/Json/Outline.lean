import Interaction.Proofs.Json.Scalar

/-!
# Reading written values back

Whatever the layout, the outline of a written value is the outline of the value itself: `outline`
tells what a reader meets in a value, and `parse_render` that it meets just that in the text. The
numbers have to fit sixty-four bits, since others are read as doubles.
-/

namespace Interaction

namespace Json

mutual

/-- What there is to meet in a value. -/
def outline : Json → Outline
  | .null => .null
  | .bool value => .bool value
  | .number n => .number (some n)
  | .string s => .string (some s)
  | .array items => .array (outlines items)
  | .object members => .object (memberOutlines members)

def outlines : List Json → List Outline
  | [] => []
  | item :: more => item.outline :: outlines more

def memberOutlines : List (String × Json) → List (Option String × Outline)
  | [] => []
  | (key, value) :: more => (some key, value.outline) :: memberOutlines more

end

/-- Values whose numbers are natural numbers of sixty-four bits. -/
inductive FitsWords : Json → Prop
  | null : FitsWords .null
  | bool (value : Bool) : FitsWords (.bool value)
  | nat {n : Nat} (h : n ≤ Decimal.wordMax) : FitsWords (Json.nat n)
  | string (s : String) : FitsWords (.string s)
  | array {items : List Json} (h : ∀ item ∈ items, FitsWords item) : FitsWords (.array items)
  | object {members : List (String × Json)} (h : ∀ member ∈ members, FitsWords member.2) :
    FitsWords (.object members)

theorem FitsWords.empty : FitsWords (.object []) :=
  .object nofun

theorem FitsWords.member {key : String} {v : Json} {members : List (String × Json)}
    (h : v.FitsWords) (hmore : FitsWords (.object members)) :
    FitsWords (.object ((key, v) :: members)) := by
  cases hmore with
  | object hmembers => exact .object (List.forall_mem_cons.2 ⟨h, hmembers⟩)

theorem FitsWords.optional {key : String} {value : Option Json} {members : List (String × Json)}
    (h : ∀ v ∈ value, v.FitsWords) (hmore : FitsWords (.object members)) :
    FitsWords (.object (Json.optional key value ++ members)) := by
  cases value with
  | none => exact hmore
  | some v => exact .member (h v rfl) hmore

theorem fitsWords_map {α : Type} {f : α → Json} {as : List α} (h : ∀ a ∈ as, (f a).FitsWords) :
    FitsWords (.array (as.map f)) :=
  .array (List.forall_mem_map.2 h)

theorem fitsWords_table {α : Type} {f : α → Json} {entries : List (String × α)}
    (h : ∀ entry ∈ entries, (f entry.2).FitsWords) : FitsWords (Json.table f entries) :=
  .object (List.forall_mem_map.2 h)

namespace Outline

variable {layout : Layout} {rest : List Char}

theorem skipSpace_lineBreak (layout : Layout) (depth : Nat) (input : List Symbol) :
    skipSpace ((layout.lineBreak depth).map some ++ input) = skipSpace input := by
  cases layout with
  | compact => rfl
  | indented width =>
      have hblank : ∀ c ∈ (Layout.indented width).lineBreak depth, isSpace (some c) = true := by
        intro c hc
        rcases List.mem_cons.1 hc with rfl | hc
        · decide
        · rw [(List.mem_replicate.1 hc).2]
          decide
      rw [skipSpace, List.dropWhile_append_of_pos]
      · rfl
      · intro symbol hsymbol
        obtain ⟨c, hc, rfl⟩ := List.mem_map.1 hsymbol
        exact hblank c hc

theorem skipSpace_cons {c : Char} (h : isSpace (some c) = false) (input : List Symbol) :
    skipSpace (some c :: input) = some c :: input := by
  rw [skipSpace, List.dropWhile_cons_of_neg]
  rw [h]
  exact Bool.false_ne_true

theorem skipSpace_colon (layout : Layout) (input : List Symbol) :
    skipSpace (layout.colon.map some ++ input) =
      some ':' :: ((layout.colon.drop 1).map some ++ input) := by
  cases layout <;> rfl

/-- Blanks before a value are skipped. -/
theorem value_of_skipSpace {input other : List Symbol} (h : skipSpace input = skipSpace other)
    (fuel : Nat) : value fuel input = value fuel other := by
  cases fuel with
  | zero => rw [value, value]
  | succ fuel => rw [value, value, h]

mutual

/-- A value is written in front of the text that follows it. -/
theorem length_le_write (layout : Layout) :
    (v : Json) → (depth : Nat) → (rest : List Char) →
      rest.length ≤ (write layout depth v rest).length
  | .null, depth, rest => by
    rw [write]
    exact Nat.le_add_right _ 4
  | .bool true, depth, rest => by
    rw [write]
    exact Nat.le_add_right _ 4
  | .bool false, depth, rest => by
    rw [write]
    exact Nat.le_add_right _ 5
  | .number n, depth, rest => by
    rw [write, List.length_append]
    exact Nat.le_add_left _ _
  | .string s, depth, rest => by
    rw [write, writeString, List.length_cons, List.length_append, List.length_cons]
    omega
  | .array [], depth, rest => by
    rw [write]
    exact Nat.le_add_right _ 2
  | .array (item :: more), depth, rest => by
    have hitem := length_le_write layout item (depth + 1)
      (writeItems layout (depth + 1) more (layout.lineBreak depth ++ ']' :: rest))
    have hmore := length_le_writeItems layout more (depth + 1) (layout.lineBreak depth ++ ']' :: rest)
    rw [List.length_append, List.length_cons] at hmore
    rw [write, List.length_cons, List.length_append]
    omega
  | .object [], depth, rest => by
    rw [write]
    exact Nat.le_add_right _ 2
  | .object (member :: more), depth, rest => by
    have hmember := length_le_writeMember layout member (depth + 1)
      (writeMembers layout (depth + 1) more (layout.lineBreak depth ++ '}' :: rest))
    have hmore := length_le_writeMembers layout more (depth + 1)
      (layout.lineBreak depth ++ '}' :: rest)
    rw [List.length_append, List.length_cons] at hmore
    rw [write, List.length_cons, List.length_append]
    omega

theorem length_le_writeItems (layout : Layout) :
    (items : List Json) → (depth : Nat) → (rest : List Char) →
      rest.length ≤ (writeItems layout depth items rest).length
  | [], depth, rest => by
    exact Nat.le_of_eq (by rw [writeItems])
  | item :: more, depth, rest => by
    have hitem := length_le_write layout item depth (writeItems layout depth more rest)
    have hmore := length_le_writeItems layout more depth rest
    rw [writeItems, List.length_cons, List.length_append]
    omega

theorem length_le_writeMember (layout : Layout) :
    (member : String × Json) → (depth : Nat) → (rest : List Char) →
      rest.length ≤ (writeMember layout depth member rest).length
  | (key, value), depth, rest => by
    have hvalue := length_le_write layout value depth rest
    simp only [writeMember, writeString, List.length_cons, List.length_append]
    omega

theorem length_le_writeMembers (layout : Layout) :
    (members : List (String × Json)) → (depth : Nat) → (rest : List Char) →
      rest.length ≤ (writeMembers layout depth members rest).length
  | [], depth, rest => by
    exact Nat.le_of_eq (by rw [writeMembers])
  | member :: more, depth, rest => by
    have hmember := length_le_writeMember layout member depth (writeMembers layout depth more rest)
    have hmore := length_le_writeMembers layout more depth rest
    rw [writeMembers, List.length_cons, List.length_append]
    omega

end

/-- What a written value starts with: no blank and no closing bracket. -/
theorem write_eq_cons (v : Json) (hv : v.FitsWords) (layout : Layout) (depth : Nat)
    (rest : List Char) : ∃ c more, write layout depth v rest = c :: more ∧
      isSpace (some c) = false ∧ c ≠ ']' := by
  cases hv with
  | null => exact ⟨_, _, by rw [write], by decide, by decide⟩
  | bool value => cases value <;> exact ⟨_, _, by rw [write], by decide, by decide⟩
  | @nat n h =>
      rw [write_nat]
      cases hdigits : Decimal.digits n ++ rest with
      | nil => exact absurd (List.append_eq_nil_iff.1 hdigits).1 (Decimal.digits_ne_nil n)
      | cons c more =>
          have hc := isDigit_of_digits_append hdigits
          refine ⟨c, more, rfl, ?_, ?_⟩
          · simp only [isSpace, Bool.or_eq_false_iff, beq_eq_false_iff_ne, ne_eq,
              Option.some.injEq]
            refine ⟨⟨⟨?_, ?_⟩, ?_⟩, ?_⟩ <;> (rintro rfl; exact absurd hc (by decide))
          · rintro rfl
            exact absurd hc (by decide)
  | string s => exact ⟨_, _, by rw [write, writeString], by decide, by decide⟩
  | @array items h => cases items <;> exact ⟨_, _, by rw [write], by decide, by decide⟩
  | @object members h => cases members <;> exact ⟨_, _, by rw [write], by decide, by decide⟩

/-- What follows an item or a member extends no numeral. -/
theorem delimits_lineBreak (layout : Layout) (depth : Nat) {c : Char}
    (h : c.isDigit = false ∧ c ≠ '.' ∧ c ≠ 'e' ∧ c ≠ 'E') (rest : List Char) :
    Delimits (layout.lineBreak depth ++ c :: rest) := by
  cases layout with
  | compact => exact .cons h rest
  | indented width => exact .cons (by decide) _

theorem delimits_writeItems (layout : Layout) (depth depth' : Nat) (items : List Json)
    (rest : List Char) :
    Delimits (writeItems layout depth items (layout.lineBreak depth' ++ ']' :: rest)) := by
  cases items with
  | nil =>
      rw [writeItems]
      exact delimits_lineBreak layout depth' (by decide) rest
  | cons item more =>
      rw [writeItems]
      exact .cons (by decide) _

theorem delimits_writeMembers (layout : Layout) (depth depth' : Nat)
    (members : List (String × Json)) (rest : List Char) :
    Delimits (writeMembers layout depth members (layout.lineBreak depth' ++ '}' :: rest)) := by
  cases members with
  | nil =>
      rw [writeMembers]
      exact delimits_lineBreak layout depth' (by decide) rest
  | cons member more =>
      rw [writeMembers]
      exact .cons (by decide) _

/-- Whether a value is read back where it is written, if there is enough fuel for the input. -/
def ReadsBack (v : Json) : Prop :=
  ∀ (layout : Layout) (depth fuel : Nat) (rest : List Char), Delimits rest →
    2 * (write layout depth v rest).length + 1 ≤ fuel →
    value fuel ((write layout depth v rest).map some) = (v.outline, some (rest.map some))

theorem readsBack_word {v : Json} {c : Char} {word : List Char}
    (hwrite : ∀ layout depth rest, write layout depth v rest = c :: (word ++ rest))
    (hvalue : ∀ fuel input, value (fuel + 1) (some c :: (word.map some ++ input)) =
      (v.outline, some input)) : ReadsBack v := by
  intro layout depth fuel rest _ hfuel
  cases fuel with
  | zero => omega
  | succ fuel => rw [hwrite, List.map_cons, List.map_append, hvalue]

theorem readsBack_null : ReadsBack .null := by
  refine @readsBack_word .null 'n' ['u', 'l', 'l'] (fun _ _ _ => by rw [write]; rfl) ?_
  intro fuel input
  rw [value, skipSpace_cons (by decide)]
  rfl

theorem readsBack_bool (b : Bool) : ReadsBack (.bool b) := by
  cases b with
  | false =>
      refine @readsBack_word (.bool false) 'f' ['a', 'l', 's', 'e']
        (fun _ _ _ => by rw [write]; rfl) ?_
      intro fuel input
      rw [value, skipSpace_cons (by decide)]
      rfl
  | true =>
      refine @readsBack_word (.bool true) 't' ['r', 'u', 'e'] (fun _ _ _ => by rw [write]; rfl) ?_
      intro fuel input
      rw [value, skipSpace_cons (by decide)]
      rfl

theorem readsBack_nat {n : Nat} (h : n ≤ Decimal.wordMax) : ReadsBack (Json.nat n) := by
  intro layout depth fuel rest hrest hfuel
  cases fuel with
  | zero => omega
  | succ fuel =>
      obtain ⟨c, more, hcons, hspace, -⟩ := write_eq_cons (Json.nat n) (.nat h) layout depth rest
      have hnumeral : numeral? ((write layout depth (Json.nat n) rest).map some) =
          some (⟨false, Decimal.digits n, none, none⟩, rest.map some) := by
        have hc : c.isDigit = true := by
          rw [write_nat] at hcons
          exact isDigit_of_digits_append hcons
        rw [numeral?.eq_def]
        split
        next heq =>
          rw [hcons, List.map_cons] at heq
          cases (List.cons.inj heq).1
          exact absurd hc (by decide)
        next => rw [write_nat, unsigned?_digits n hrest]
      have hc : c.isDigit = true := by
        rw [write_nat] at hcons
        exact isDigit_of_digits_append hcons
      have hskip : skipSpace ((write layout depth (Json.nat n) rest).map some) =
          (write layout depth (Json.nat n) rest).map some := by
        rw [hcons]
        exact skipSpace_cons hspace _
      have hother {d : Char} {tail : List Symbol} (hd : d.isDigit = false)
          (heq : (write layout depth (Json.nat n) rest).map some = some d :: tail) : False := by
        rw [hcons, List.map_cons] at heq
        rw [Option.some.inj (List.cons.inj heq).1, hd] at hc
        cases hc
      rw [value, hskip]
      split
      next heq => exact (hother (by decide) heq).elim
      next heq => exact (hother (by decide) heq).elim
      next heq => exact (hother (by decide) heq).elim
      next heq => exact (hother (by decide) heq).elim
      next heq => exact (hother (by decide) heq).elim
      next heq => exact (hother (by decide) heq).elim
      next => rw [hnumeral, orBroken, ofNumeral?_digits h, Json.nat, outline]

theorem readsBack_string (s : String) : ReadsBack (.string s) := by
  intro layout depth fuel rest _ hfuel
  cases fuel with
  | zero => omega
  | succ fuel =>
      rw [write, writeString, List.map_cons, value, skipSpace_cons (by decide)]
      simp only [string?_writeString, orBroken, outline]

/-- By induction on the items: each is read back, and what stands after it tells whether more
follow. -/
theorem items_writeItems {items : List Json} (hitems : ∀ item ∈ items, ReadsBack item)
    {item : Json} (hitem : ReadsBack item) (layout : Layout) (depth depth' fuel : Nat)
    (rest : List Char)
    (hfuel : 2 * (layout.lineBreak depth ++ write layout depth item (writeItems layout depth items
      (layout.lineBreak depth' ++ ']' :: rest))).length + 2 ≤ fuel) :
    Outline.items fuel ((layout.lineBreak depth ++ write layout depth item
        (writeItems layout depth items (layout.lineBreak depth' ++ ']' :: rest))).map some) =
      (item.outline :: outlines items, some (rest.map some)) := by
  induction items generalizing item fuel with
  | nil =>
      cases fuel with
      | zero => omega
      | succ fuel =>
          rw [List.length_append] at hfuel
          rw [List.map_append, Outline.items,
            value_of_skipSpace (skipSpace_lineBreak layout depth _),
            hitem layout depth fuel _ (delimits_writeItems layout depth depth' [] rest) (by omega)]
          simp only [writeItems, List.map_append, List.map_cons, skipSpace_lineBreak, outlines]
          rw [skipSpace_cons (by decide)]
          rfl
  | cons next more ih =>
      cases fuel with
      | zero => omega
      | succ fuel =>
          have hdelimits := delimits_writeItems layout depth depth' (next :: more) rest
          have hmore := ih (fun v hv => hitems v (.tail _ hv)) (hitems next (.head _)) fuel
          have hlength := length_le_write layout item depth (writeItems layout depth (next :: more)
            (layout.lineBreak depth' ++ ']' :: rest))
          rw [List.length_append] at hfuel
          rw [List.map_append, Outline.items,
            value_of_skipSpace (skipSpace_lineBreak layout depth _),
            hitem layout depth fuel _ hdelimits (by omega)]
          rw [writeItems, List.length_cons] at hlength
          simp only [writeItems, List.map_cons] at hfuel ⊢
          rw [skipSpace_cons (by decide)]
          simp only [outlines]
          rw [hmore (by omega)]

/-- The members from one on whose value has been read: what stands after the value tells whether
more follow. -/
def membersFrom (fuel : Nat) (key : Option String) (value : Outline) (afterValue : List Symbol) :
    Found (List (Option String × Outline)) :=
  match skipSpace afterValue with
  | some '}' :: after => ([(key, value)], some after)
  | some ',' :: more =>
    let found := Outline.members fuel more
    ((key, value) :: found.1, found.2)
  | _ => ([(key, value), (none, .broken)], none)

/-- A member is its key, a colon and its value. -/
theorem members_writeMember {member : String × Json} (hmember : ReadsBack member.2)
    (layout : Layout) (depth fuel : Nat) (rest : List Char) (hrest : Delimits rest)
    (hfuel : 2 * (writeMember layout depth member rest).length + 1 ≤ fuel) :
    Outline.members (fuel + 1)
        ((layout.lineBreak depth ++ writeMember layout depth member rest).map some) =
      membersFrom fuel (some member.1) member.2.outline (rest.map some) := by
  have hblank : ∀ input, skipSpace ((layout.colon.drop 1).map some ++ input) = skipSpace input := by
    cases layout <;> exact fun _ => rfl
  have hlength : 2 * (write layout depth member.2 rest).length + 1 ≤ fuel := by
    rw [writeMember, writeString, List.length_cons, List.length_append, List.length_cons,
      List.length_append] at hfuel
    omega
  rw [List.map_append, Outline.members, skipSpace_lineBreak, writeMember, writeString,
    List.map_cons, skipSpace_cons (by decide)]
  simp only [string?_writeString]
  rw [List.map_append, skipSpace_colon]
  simp only [value_of_skipSpace (hblank _), hmember layout depth fuel rest hrest hlength]
  rfl

/-- By induction on the members, as for items. -/
theorem members_writeMembers {members : List (String × Json)}
    (hmembers : ∀ member ∈ members, ReadsBack member.2) {member : String × Json}
    (hmember : ReadsBack member.2) (layout : Layout) (depth depth' fuel : Nat) (rest : List Char)
    (hfuel : 2 * (layout.lineBreak depth ++ writeMember layout depth member
      (writeMembers layout depth members (layout.lineBreak depth' ++ '}' :: rest))).length + 2 ≤
        fuel) :
    Outline.members fuel ((layout.lineBreak depth ++ writeMember layout depth member
        (writeMembers layout depth members (layout.lineBreak depth' ++ '}' :: rest))).map some) =
      ((some member.1, member.2.outline) :: memberOutlines members, some (rest.map some)) := by
  induction members generalizing member fuel with
  | nil =>
      cases fuel with
      | zero => omega
      | succ fuel =>
          rw [List.length_append] at hfuel
          rw [members_writeMember hmember layout depth fuel _
            (delimits_writeMembers layout depth depth' [] rest) (by omega), membersFrom]
          simp only [writeMembers, List.map_append, List.map_cons, skipSpace_lineBreak,
            memberOutlines]
          rw [skipSpace_cons (by decide)]
          rfl
  | cons next more ih =>
      cases fuel with
      | zero => omega
      | succ fuel =>
          have hdelimits := delimits_writeMembers layout depth depth' (next :: more) rest
          have hmore := ih (fun m hm => hmembers m (.tail _ hm)) (hmembers next (.head _)) fuel
          have hlength := length_le_writeMember layout member depth (writeMembers layout depth
            (next :: more) (layout.lineBreak depth' ++ '}' :: rest))
          rw [List.length_append] at hfuel
          rw [members_writeMember hmember layout depth fuel _ hdelimits (by omega), membersFrom]
          rw [writeMembers, List.length_cons] at hlength
          simp only [writeMembers, List.map_cons] at hfuel ⊢
          rw [skipSpace_cons (by decide)]
          simp only [memberOutlines]
          rw [hmore (by omega)]

theorem readsBack_array {items : List Json} (hfits : ∀ item ∈ items, item.FitsWords)
    (hitems : ∀ item ∈ items, ReadsBack item) : ReadsBack (.array items) := by
  intro layout depth fuel rest _ hfuel
  cases fuel with
  | zero => omega
  | succ fuel =>
      cases items with
      | nil =>
          rw [write, List.map_cons, List.map_cons, value, skipSpace_cons (by decide)]
          simp only
          rw [skipSpace_cons (by decide), outline, outlines]
          rfl
      | cons item more =>
          obtain ⟨c, tail, hcons, hspace, hclose⟩ := write_eq_cons item (hfits item (.head _))
            layout (depth + 1)
            (writeItems layout (depth + 1) more (layout.lineBreak depth ++ ']' :: rest))
          rw [write, List.length_cons] at hfuel
          have hread := items_writeItems (fun v hv => hitems v (.tail _ hv)) (hitems item (.head _))
            layout (depth + 1) depth fuel rest (by omega)
          rw [write, List.map_cons, value, skipSpace_cons (by decide)]
          simp only [hread, outline, outlines]
          rw [List.map_append, skipSpace_lineBreak, hcons, List.map_cons, skipSpace_cons hspace]
          split
          next heq => exact absurd (Option.some.inj (List.cons.inj heq).1) hclose
          next => rfl

theorem readsBack_object {members : List (String × Json)}
    (hmembers : ∀ member ∈ members, ReadsBack member.2) : ReadsBack (.object members) := by
  intro layout depth fuel rest _ hfuel
  cases fuel with
  | zero => omega
  | succ fuel =>
      cases members with
      | nil =>
          rw [write, List.map_cons, List.map_cons, value, skipSpace_cons (by decide)]
          simp only
          rw [skipSpace_cons (by decide), outline, memberOutlines]
          rfl
      | cons member more =>
          rw [write, List.length_cons] at hfuel
          have hread := members_writeMembers (fun m hm => hmembers m (.tail _ hm))
            (hmembers member (.head _)) layout (depth + 1) depth fuel rest (by omega)
          rw [write, List.map_cons, value, skipSpace_cons (by decide)]
          simp only [hread, outline, memberOutlines]
          rw [List.map_append, skipSpace_lineBreak, writeMember, writeString, List.map_cons,
            skipSpace_cons (by decide)]
          rfl

/-- Every value whose numbers fit is read back. -/
theorem readsBack {v : Json} (h : v.FitsWords) : ReadsBack v := by
  induction h with
  | null => exact readsBack_null
  | bool value => exact readsBack_bool value
  | nat h => exact readsBack_nat h
  | string s => exact readsBack_string s
  | array hfits ih => exact readsBack_array hfits ih
  | object _ ih => exact readsBack_object ih

end Outline

/-- A rendered value is read as the outline of the value, to the end of the text. -/
theorem parse_render {v : Json} (h : v.FitsWords) (layout : Layout) :
    Outline.parse ((v.render layout).toList.map some) = (v.outline, true) := by
  have hread := Outline.readsBack h layout 0
    (2 * ((v.render layout).toList.map some).length + 2) [] nofun
  rw [render, String.toList_ofList, List.length_map] at hread
  rw [Outline.parse, render, String.toList_ofList, List.length_map, hread (by omega)]
  rfl

end Json

end Interaction
