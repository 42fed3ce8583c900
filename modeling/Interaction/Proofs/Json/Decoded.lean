import Interaction.Json.Decoder
import Interaction.Proofs.Table

/-!
# What can come of decoding

An integer that was read off a text fits sixty-four bits. `Yields d P` says that a decoder makes
only values with the property `P` of such outlines; for a record, `P` is an invariant that every
field keeps. A part of a record that only one field writes comes from the member with its key.
-/

namespace Interaction

namespace Json

namespace Outline

/-- Outlines whose integers do not exceed sixty-four bits. -/
inductive FitsWords : Outline → Prop
  | null : FitsWords .null
  | bool (value : Bool) : FitsWords (.bool value)
  | integer {value : Int} (h : value ≤ Decimal.wordMax) :
    FitsWords (.number (some (.integer value)))
  | double (text : String) : FitsWords (.number (some (.double text)))
  | outOfRange : FitsWords (.number none)
  | string (value : Option String) : FitsWords (.string value)
  | array {items : List Outline} (h : ∀ item ∈ items, FitsWords item) : FitsWords (.array items)
  | object {members : List (Option String × Outline)} (h : ∀ member ∈ members, FitsWords member.2) :
    FitsWords (.object members)
  | broken : FitsWords .broken

end Outline

theorem takeDigits_le {n : Nat} (ds : List Char) (h : n ≤ Decimal.wordMax) :
    (takeDigits n ds).1 ≤ Decimal.wordMax := by
  induction ds generalizing n with
  | nil => exact h
  | cons c ds ih =>
      rw [takeDigits]
      split
      next hmore => exact ih hmore
      next => exact h

theorem fitsWords_ofNumeral? (n : Numeral) : Outline.FitsWords (.number (Number.ofNumeral? n)) := by
  have htaken := takeDigits_le n.whole (Nat.zero_le _)
  rw [Number.ofNumeral?]
  split
  · split
    · exact .integer (Int.ofNat_le.2 htaken)
    · split
      · refine .integer ?_
        omega
      · exact .double _
  · cases magnitude? n (takeDigits 0 n.whole).1 (takeDigits 0 n.whole).2.length with
    | none => exact .outOfRange
    | some f => exact .double _

namespace Outline

theorem fitsWords_orBroken {α : Type} {f : α → Outline} (h : ∀ a, (f a).FitsWords)
    (found : Option (α × List Symbol)) : (orBroken f found).1.FitsWords := by
  cases found with
  | none => exact .broken
  | some found => exact h found.1

theorem fitsWords_literal {word : List Char} {o : Outline} (h : o.FitsWords) (input : List Symbol) :
    (literal word o input).1.FitsWords :=
  fitsWords_orBroken (fun _ => h) _

theorem fitsWords_value {fuel : Nat}
    (hitems : ∀ input, ∀ item ∈ (items fuel input).1, item.FitsWords)
    (hmembers : ∀ input, ∀ member ∈ (members fuel input).1, member.2.FitsWords)
    (input : List Symbol) : (value (fuel + 1) input).1.FitsWords := by
  rw [value]
  split
  · exact fitsWords_literal .null _
  · exact fitsWords_literal (.bool true) _
  · exact fitsWords_literal (.bool false) _
  · exact fitsWords_orBroken .string _
  · split
    · exact .array nofun
    · exact .array (hitems _)
  · split
    · exact .object nofun
    · exact .object (hmembers _)
  · exact fitsWords_orBroken fitsWords_ofNumeral? _

theorem fitsWords_items {fuel : Nat} (hvalue : ∀ input, (value fuel input).1.FitsWords)
    (hitems : ∀ input, ∀ item ∈ (items fuel input).1, item.FitsWords) (input : List Symbol) :
    ∀ item ∈ (items (fuel + 1) input).1, item.FitsWords := by
  have hfirst := hvalue input
  rw [items]
  split
  next heq =>
    rw [heq] at hfirst
    exact List.forall_mem_singleton.2 hfirst
  next heq =>
    rw [heq] at hfirst
    split
    · exact List.forall_mem_singleton.2 hfirst
    · exact List.forall_mem_cons.2 ⟨hfirst, hitems _⟩
    · exact List.forall_mem_cons.2 ⟨hfirst, List.forall_mem_singleton.2 .broken⟩

theorem fitsWords_members {fuel : Nat} (hvalue : ∀ input, (value fuel input).1.FitsWords)
    (hmembers : ∀ input, ∀ member ∈ (members fuel input).1, member.2.FitsWords)
    (input : List Symbol) : ∀ member ∈ (members (fuel + 1) input).1, member.2.FitsWords := by
  rw [members]
  split
  next =>
    split
    next => exact List.forall_mem_singleton.2 .broken
    next =>
      split
      next afterColon _ =>
        have hfirst := hvalue afterColon
        split
        next heq =>
          rw [heq] at hfirst
          exact List.forall_mem_singleton.2 hfirst
        next heq =>
          rw [heq] at hfirst
          split
          · exact List.forall_mem_singleton.2 hfirst
          · exact List.forall_mem_cons.2 ⟨hfirst, hmembers _⟩
          · exact List.forall_mem_cons.2 ⟨hfirst, List.forall_mem_singleton.2 .broken⟩
      next => exact List.forall_mem_singleton.2 .broken
  next => exact List.forall_mem_singleton.2 .broken

/-- By induction on the fuel, for values, items and members at once. -/
theorem fitsWords_read (fuel : Nat) :
    (∀ input, (value fuel input).1.FitsWords) ∧
      (∀ input, ∀ item ∈ (items fuel input).1, item.FitsWords) ∧
      ∀ input, ∀ member ∈ (members fuel input).1, member.2.FitsWords := by
  induction fuel with
  | zero =>
      refine ⟨fun input => ?_, fun input => ?_, fun input => ?_⟩
      · rw [value]
        exact .broken
      · rw [items]
        exact List.forall_mem_singleton.2 .broken
      · rw [members]
        exact List.forall_mem_singleton.2 .broken
  | succ fuel ih =>
      obtain ⟨hvalue, hitems, hmembers⟩ := ih
      exact ⟨fitsWords_value hitems hmembers, fitsWords_items hvalue hitems,
        fitsWords_members hvalue hmembers⟩

theorem fitsWords_parse (input : List Symbol) : (parse input).1.FitsWords := by
  rw [parse]
  split <;> exact (fitsWords_read _).1 input

end Outline

namespace Decoder

variable {α β ρ : Type}

/-- Whatever comes of an outline whose integers fit has the property `P`. -/
def Yields (d : Decoder α) (P : α → Prop) : Prop :=
  ∀ (depth : Nat) (o : Outline), o.FitsWords → ∀ a, d depth o = .ok a → P a

theorem yields_any (d : Decoder α) : Yields d fun _ => True :=
  fun _ _ _ _ _ => trivial

theorem yields_natural (name : String) : Yields (natural name) (· ≤ Decimal.wordMax) := by
  intro depth o ho n h
  cases ho with
  | @integer value hvalue =>
      rw [natural] at h
      split at h
      · cases h
        omega
      · cases h
  | _ => cases h

theorem Yields.nullable {d : Decoder α} {P : α → Prop} (h : Yields d P) :
    Yields (nullable d) fun found => ∀ a ∈ found, P a := by
  intro depth o ho found hfound a ha
  rw [Decoder.nullable.eq_def] at hfound
  split at hfound
  · cases hfound
    cases ha
  · obtain ⟨b, hb, rfl⟩ := map_eq_ok_iff.1 hfound
    cases ha
    exact h depth o ho a hb

theorem Yields.orDefault {d : Decoder α} {P : α → Prop} (h : Yields d P) {other : α}
    (hother : P other) : Yields (orDefault other d) P := by
  intro depth o ho a ha
  obtain ⟨found, hfound, rfl⟩ := map_eq_ok_iff.1 ha
  cases found with
  | none => exact hother
  | some b => exact h.nullable depth o ho _ hfound b rfl

theorem Yields.list {d : Decoder α} {P : α → Prop} (h : Yields d P) :
    Yields (list d) fun as => ∀ a ∈ as, P a := by
  intro depth o ho as has a ha
  rw [Decoder.list.eq_def] at has
  split at has
  next => cases has
  next items depth =>
    cases ho with
    | array hitems =>
        obtain ⟨item, hitem, hdecode⟩ := exists_of_mem_right (mapM_eq_ok_iff.1 has) ha
        exact h depth item (hitems item hitem) a hdecode
  next => cases has

theorem Yields.table {d : Decoder α} {P : α → Prop} (h : Yields d P) :
    Yields (table d) fun t => ∀ entry ∈ t.entries, P entry.2 := by
  intro depth o ho t ht entry hentry
  rw [Decoder.table.eq_def] at ht
  split at ht
  next => cases ht
  next members depth =>
    cases ho with
    | object hmembers =>
        obtain ⟨entries, hentries, rfl⟩ := map_eq_ok_iff.1 ht
        obtain ⟨member, hmember, hdecode⟩ :=
          exists_of_mem_right (mapM_eq_ok_iff.1 hentries) (Table.mem_of_mem_ofList hentry)
        rw [Decoder.entry] at hdecode
        split at hdecode
        · cases hdecode
        · obtain ⟨a, ha, rfl⟩ := map_eq_ok_iff.1 hdecode
          exact h depth member.2 (hmembers member hmember) a ha
  next => cases ht

/-! ### Records -/

/-- Reading a field of an outline whose integers fit keeps the invariant `I` of the record. -/
def Keeps (field : Field ρ) (I : ρ → Prop) : Prop :=
  ∀ (depth : Nat) (o : Outline) (r r' : ρ), o.FitsWords → I r →
    field.decode depth o r = .ok r' → I r'

variable {I : ρ → Prop} {fields : List (Field ρ)} {key : String} {d : Decoder α} {P : α → Prop}
  {put : α → ρ → ρ} {r r' start : ρ}

theorem keeps_of_decode {field : Field ρ}
    (hdecode : ∀ depth o r, field.decode depth o r = (d depth o).map (put · r)) (h : Yields d P)
    (hput : ∀ a r, P a → I r → I (put a r)) : Keeps field I := by
  intro depth o r r' ho hr hr'
  rw [hdecode] at hr'
  obtain ⟨a, ha, rfl⟩ := map_eq_ok_iff.1 hr'
  exact hput a r (h depth o ho a ha) hr

theorem keeps_required (h : Yields d P) (hput : ∀ a r, P a → I r → I (put a r)) :
    Keeps (required key d put) I :=
  keeps_of_decode (fun _ _ _ => rfl) h hput

theorem keeps_defaulted (h : Yields d P) (hput : ∀ a r, P a → I r → I (put a r)) :
    Keeps (defaulted key d put) I :=
  keeps_of_decode (fun _ _ _ => rfl) h hput

/-- A field that never breaks the invariant keeps it whatever is read. -/
theorem keeps_required_of_put (hput : ∀ a r, I r → I (put a r)) : Keeps (required key d put) I :=
  keeps_required (yields_any d) fun a r _ => hput a r

theorem keeps_defaulted_of_put (hput : ∀ a r, I r → I (put a r)) : Keeps (defaulted key d put) I :=
  keeps_defaulted (yields_any d) fun a r _ => hput a r

/-- When a record ends with its members: no required field is missing. -/
theorem of_members_nil {depth : Nat} {seen : List String}
    (h : Decoder.members fields depth seen r [] = .ok r') :
    r' = r ∧ ∀ field ∈ fields, field.isRequired = true → field.key ∈ seen := by
  rw [Decoder.members] at h
  split at h
  next => cases h
  next hnone =>
    cases h
    refine ⟨rfl, fun field hfield hrequired => ?_⟩
    have := List.find?_eq_none.1 hnone field hfield
    simpa [hrequired] using this

/-- What a member of a record can be: a field that is read for the first time, or a member that is
skipped. -/
theorem of_members_cons {depth : Nat} {seen : List String} {member : Option String × Outline}
    {more : List (Option String × Outline)}
    (h : Decoder.members fields depth seen r (member :: more) = .ok r') :
    (∃ field ∈ fields, member.1 = some field.key ∧ field.key ∉ seen ∧ ∃ next,
      field.decode depth member.2 r = .ok next ∧
        Decoder.members fields depth (field.key :: seen) next more = .ok r') ∨
    ((∀ field ∈ fields, member.1 ≠ some field.key) ∧
      Decoder.members fields depth seen r more = .ok r') := by
  obtain ⟨key | key, o⟩ := member
  · cases h
  rw [Decoder.members] at h
  split at h
  next field hfind =>
    have hkey : field.key = key := by simpa using List.find?_some hfind
    subst hkey
    split at h
    next => cases h
    next hnew =>
      obtain ⟨next, hnext, h⟩ := bind_eq_ok_iff.1 h
      have hnew : field.key ∉ seen := by simpa using hnew
      exact .inl ⟨field, List.mem_of_find?_eq_some hfind, rfl, hnew, next, hnext, h⟩
  next hnone =>
    split at h
    · refine .inr ⟨fun field hfield heq => ?_, h⟩
      have := List.find?_eq_none.1 hnone field hfield
      exact this (by simpa using (Option.some.inj heq).symm)
    · cases h

theorem members_keeps (hfields : ∀ field ∈ fields, Keeps field I) {depth : Nat}
    {seen : List String} {members : List (Option String × Outline)}
    (hmembers : ∀ member ∈ members, member.2.FitsWords) (hr : I r)
    (h : Decoder.members fields depth seen r members = .ok r') : I r' := by
  induction members generalizing seen r with
  | nil =>
      rw [(of_members_nil h).1]
      exact hr
  | cons member more ih =>
      have hmore : ∀ member ∈ more, member.2.FitsWords := fun m hm => hmembers m (.tail _ hm)
      rcases of_members_cons h with ⟨field, hfield, -, -, next, hnext, h⟩ | ⟨-, h⟩
      · have hkeeps := hfields field hfield depth member.2 r next (hmembers member (.head _))
        exact ih hmore (hkeeps hr hnext) h
      · exact ih hmore hr h

theorem items_keeps (hfields : ∀ field ∈ fields, Keeps field I) {name : String}
    {total depth given : Nat} {items : List Outline} (hitems : ∀ item ∈ items, item.FitsWords)
    (hr : I r) (h : Decoder.items name total depth given r fields items = .ok r') : I r' := by
  induction fields generalizing given r items with
  | nil =>
      cases items with
      | nil =>
          cases h
          exact hr
      | cons item more => cases h
  | cons field fields ih =>
      have hmore : ∀ field ∈ fields, Keeps field I := fun f hf => hfields f (.tail _ hf)
      cases items with
      | nil =>
          rw [Decoder.items] at h
          split at h
          · cases h
          · exact ih hmore (List.forall_mem_nil _) hr h
      | cons item more =>
          obtain ⟨next, hnext, h⟩ := bind_eq_ok_iff.1 h
          have hkeeps := hfields field (.head _) depth item r next (hitems item (.head _)) hr hnext
          exact ih hmore (fun i hi => hitems i (.tail _ hi)) hkeeps h

/-- A record is made of the members of an object or of the items of an array. -/
theorem of_record {name : String} {depth : Nat} {o : Outline}
    (h : record name fields start depth o = .ok r) :
    ∃ inner, depth = inner + 1 ∧
      ((∃ members, o = .object members ∧
          Decoder.members fields inner [] start members = .ok r) ∨
        ∃ items, o = .array items ∧
          Decoder.items name fields.length inner 0 start fields items = .ok r) := by
  rw [record.eq_def] at h
  split at h
  next => cases h
  next => cases h
  next members inner => exact ⟨inner, rfl, .inl ⟨members, rfl, h⟩⟩
  next items inner => exact ⟨inner, rfl, .inr ⟨items, rfl, h⟩⟩
  next => cases h

/-- What the start has and every field keeps, a decoded record has. -/
theorem yields_record {name : String} (hstart : I start)
    (hfields : ∀ field ∈ fields, Keeps field I) : Yields (record name fields start) I := by
  intro depth o ho r hr
  obtain ⟨inner, -, ⟨members, rfl, hread⟩ | ⟨items, rfl, hread⟩⟩ := of_record hr
  · cases ho with
    | object hmembers => exact members_keeps hfields hmembers hstart hread
  · cases ho with
    | array hitems => exact items_keeps hfields hitems hstart hread

/-! ### Where a part of a record comes from -/

variable {depth : Nat} {seen : List String} {members : List (Option String × Outline)}

/-- A field that was seen is not read again. -/
theorem get_of_seen {field : Field ρ} {get : ρ → β}
    (hkeeps : ∀ other ∈ fields, other.key ≠ field.key → ∀ b, Keeps other fun r => get r = b)
    (hmembers : ∀ member ∈ members, member.2.FitsWords) (hseen : field.key ∈ seen)
    (h : Decoder.members fields depth seen r members = .ok r') : get r' = get r := by
  induction members generalizing seen r with
  | nil => rw [(of_members_nil h).1]
  | cons member more ih =>
      have hmore : ∀ member ∈ more, member.2.FitsWords := fun m hm => hmembers m (.tail _ hm)
      rcases of_members_cons h with ⟨other, hother, -, hnew, next, hnext, h⟩ | ⟨-, h⟩
      · have hne : other.key ≠ field.key := fun heq => hnew (heq ▸ hseen)
        have hget := hkeeps other hother hne (get r) depth member.2 r next
          (hmembers member (.head _)) rfl hnext
        rw [ih hmore (.tail _ hseen) h, hget]
      · exact ih hmore hseen h

/-- A part of a record that one field alone writes was read by it from the first member with its
key, unless there is no such member and the field may be left out. -/
theorem get_of_members (field : Field ρ) (get : ρ → β) (hfield : field ∈ fields)
    (hkeys : ∀ other ∈ fields, other.key = field.key → other = field)
    (hkeeps : ∀ other ∈ fields, other.key ≠ field.key → ∀ b, Keeps other fun r => get r = b)
    (hmembers : ∀ member ∈ members, member.2.FitsWords) (hseen : field.key ∉ seen)
    (h : Decoder.members fields depth seen r members = .ok r') :
    (∃ o, members.lookup (some field.key) = some o ∧ ∃ r₁ r₂,
      field.decode depth o r₁ = .ok r₂ ∧ get r' = get r₂) ∨
    (members.lookup (some field.key) = none ∧ field.isRequired = false ∧ get r' = get r) := by
  induction members generalizing seen r with
  | nil =>
      obtain ⟨rfl, hrequired⟩ := of_members_nil h
      refine .inr ⟨rfl, ?_, rfl⟩
      exact Bool.eq_false_iff.2 fun hreq => hseen (hrequired field hfield hreq)
  | cons member more ih =>
      have hmore : ∀ member ∈ more, member.2.FitsWords := fun m hm => hmembers m (.tail _ hm)
      obtain ⟨key, o⟩ := member
      rcases of_members_cons h with ⟨other, hother, rfl, hnew, next, hnext, h⟩ | ⟨hskip, h⟩
      · by_cases heq : other.key = field.key
        · obtain rfl := hkeys other hother heq
          refine .inl ⟨o, by rw [List.lookup_cons_self], r, next, hnext, ?_⟩
          exact get_of_seen hkeeps hmore (.head _) h
        · have hget := hkeeps other hother heq (get r) depth o r next (hmembers _ (.head _)) rfl
            hnext
          have hlookup : (some field.key == some other.key) = false := by simpa using Ne.symm heq
          rw [List.lookup_cons, hlookup, ← hget]
          refine ih hmore ?_ h
          exact fun hmem => (List.mem_cons.1 hmem).elim (Ne.symm heq) hseen
      · have hlookup : (some field.key == key) = false := by
          simpa using Ne.symm (hskip field hfield)
        rw [List.lookup_cons, hlookup]
        exact ih hmore hseen h

/-- An array gives a record no more items than it has fields, and leaves out no required one. -/
theorem of_items {name : String} {total given : Nat} {items : List Outline}
    (h : Decoder.items name total depth given r fields items = .ok r') :
    items.length ≤ fields.length ∧
      ∀ field ∈ fields.drop items.length, field.isRequired = false := by
  induction fields generalizing given r items with
  | nil =>
      cases items with
      | nil => exact ⟨Nat.le_refl _, nofun⟩
      | cons item more => cases h
  | cons field fields ih =>
      cases items with
      | nil =>
          rw [Decoder.items] at h
          split at h
          · cases h
          next hrequired =>
            refine ⟨Nat.zero_le _, ?_⟩
            have hmore := (ih h).2
            exact List.forall_mem_cons.2 ⟨Bool.eq_false_iff.2 hrequired, hmore⟩
      | cons item more =>
          obtain ⟨next, hnext, h⟩ := bind_eq_ok_iff.1 h
          have ⟨hlength, hrequired⟩ := ih h
          exact ⟨Nat.succ_le_succ hlength, hrequired⟩

end Decoder

end Json

end Interaction
