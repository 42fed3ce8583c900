import Interaction.Json.Decoder
import Interaction.Proofs.Json.Outline
import Interaction.Proofs.Table

/-!
# Decoding what was written

`Decodes depth d v a` says all that a decoder does with the outline of a value: it answers `a` if
the value nests no deeper than it may, and otherwise that the text is unreadable. There is one such
law for each kind of decoder. For a record the members are followed in their order, as `Fills` has
it.
-/

namespace Interaction

namespace Json

mutual

/-- How many arrays and objects stand within each other in a value. -/
def depth : Json → Nat
  | .null => 0
  | .bool _ => 0
  | .number _ => 0
  | .string _ => 0
  | .array items => depths items + 1
  | .object members => memberDepths members + 1

def depths : List Json → Nat
  | [] => 0
  | item :: more => max item.depth (depths more)

def memberDepths : List (String × Json) → Nat
  | [] => 0
  | (_, value) :: more => max value.depth (memberDepths more)

end

mutual

/-- Nothing of a value is missing from its outline. -/
theorem isWhole_outline : (v : Json) → v.outline.isWhole = true
  | .null => rfl
  | .bool _ => rfl
  | .number _ => rfl
  | .string _ => rfl
  | .array items => by rw [outline, Outline.isWhole, areWhole_outlines items]
  | .object members => by rw [outline, Outline.isWhole, areWholeMembers_memberOutlines members]

theorem areWhole_outlines : (items : List Json) → Outline.areWhole (outlines items) = true
  | [] => rfl
  | item :: more => by
    rw [outlines, Outline.areWhole, isWhole_outline item, areWhole_outlines more, Bool.and_self]

theorem areWholeMembers_memberOutlines :
    (members : List (String × Json)) → Outline.areWholeMembers (memberOutlines members) = true
  | [] => rfl
  | (_, value) :: more => by
    rw [memberOutlines, Outline.areWholeMembers, isWhole_outline value,
      areWholeMembers_memberOutlines more, Bool.and_self]

end

namespace Decoder

variable {α β ρ : Type}

/-- What comes of a value that is this deep, if so many levels may be entered. -/
def within (depth levels : Nat) (a : α) : Except Problem α :=
  if levels ≤ depth then .ok a else .error .unreadable

theorem within_of_le {depth levels : Nat} (h : levels ≤ depth) (a : α) :
    within depth levels a = .ok a :=
  if_pos h

theorem within_of_lt {depth levels : Nat} (h : depth < levels) (a : α) :
    within depth levels a = .error .unreadable :=
  if_neg (Nat.not_le.2 h)

@[simp]
theorem within_zero (depth : Nat) (a : α) : within depth 0 a = .ok a :=
  within_of_le (Nat.zero_le depth) a

@[simp]
theorem within_succ (depth levels : Nat) (a : α) :
    within (depth + 1) (levels + 1) a = within depth levels a := by
  rw [within, within]
  simp only [Nat.add_le_add_iff_right]

@[simp]
theorem map_within (f : α → β) (depth levels : Nat) (a : α) :
    (within depth levels a).map f = within depth levels (f a) := by
  rw [within, within]
  split <;> rfl

/-- Of two parts, the deeper one decides. -/
theorem within_bind (f : α → Except Problem β) (depth levels more : Nat) {a : α} {b : β}
    (h : f a = within depth more b) :
    within depth levels a >>= f = within depth (max levels more) b := by
  by_cases hlevels : levels ≤ depth
  · by_cases hmore : more ≤ depth
    · rw [within_of_le hlevels, within_of_le (Nat.max_le.2 ⟨hlevels, hmore⟩)]
      exact h.trans (within_of_le hmore b)
    · rw [within_of_le hlevels, within_of_lt (by omega)]
      exact h.trans (within_of_lt (Nat.not_le.1 hmore) b)
  · rw [within_of_lt (Nat.not_le.1 hlevels), within_of_lt (by omega)]
    rfl

/-- Entering so many levels, `d` decodes `a` from the outline of a value, unless that is deeper. -/
def Decodes (depth : Nat) (d : Decoder α) (v : Json) (a : α) : Prop :=
  d depth v.outline = within depth v.depth a

variable {depth : Nat} {d : Decoder α} {v : Json} {a : α}

theorem decodes_string (s : String) : Decodes depth string (.string s) s :=
  (within_zero depth s).symm

theorem decodes_natural (name : String) (n : Nat) :
    Decodes depth (natural name) (Json.nat n) n := by
  rw [Decodes, Json.nat, outline, natural, Json.depth, within_zero,
    if_pos (Int.natCast_nonneg n), Int.toNat_natCast]

theorem Decodes.nullable (h : Decodes depth d v a) (hv : v.outline ≠ .null) :
    Decodes depth (nullable d) v (some a) := by
  rw [Decodes, Decoder.nullable, h, map_within]
  exact hv

theorem Decodes.orDefault (h : Decodes depth d v a) (hv : v.outline ≠ .null) (other : α) :
    Decodes depth (orDefault other d) v a := by
  rw [Decodes, Decoder.orDefault, h.nullable hv, map_within, Option.getD_some]

theorem mapM_outlines {f : α → Json} {as : List α} (h : ∀ a ∈ as, Decodes depth d (f a) a) :
    (outlines (as.map f)).mapM (d depth) = within depth (depths (as.map f)) as := by
  induction as with
  | nil => exact (within_zero depth []).symm
  | cons a as ih =>
      rw [List.map_cons, outlines, List.mapM_cons, h a (.head _), depths]
      refine within_bind _ _ _ _ ?_
      rw [ih fun b hb => h b (.tail _ hb)]
      exact map_within (a :: ·) _ _ _

theorem decodes_list {f : α → Json} {as : List α}
    (h : ∀ inner < depth, ∀ a ∈ as, Decodes inner d (f a) a) :
    Decodes depth (list d) (.array (as.map f)) as := by
  cases depth with
  | zero => exact (within_of_lt (Nat.succ_pos _) as).symm
  | succ depth =>
      rw [Decodes, outline, list, Json.depth, within_succ]
      exact mapM_outlines (h depth (Nat.lt_succ_self depth))

theorem mapM_entry {f : α → Json} {entries : List (String × α)}
    (h : ∀ entry ∈ entries, Decodes depth d (f entry.2) entry.2) :
    (memberOutlines (entries.map fun entry => (entry.1, f entry.2))).mapM (entry d depth) =
      within depth (memberDepths (entries.map fun entry => (entry.1, f entry.2))) entries := by
  induction entries with
  | nil => exact (within_zero depth []).symm
  | cons first more ih =>
      rw [List.map_cons, memberOutlines, List.mapM_cons, entry, memberDepths]
      simp only
      rw [h first (.head _), map_within]
      refine within_bind _ _ _ _ ?_
      rw [ih fun e he => h e (.tail _ he)]
      exact map_within (first :: ·) _ _ _

theorem decodes_table {f : α → Json} {t : Table α}
    (h : ∀ inner < depth, ∀ entry ∈ t.entries, Decodes inner d (f entry.2) entry.2) :
    Decodes depth (table d) (Json.table f t.entries) t := by
  cases depth with
  | zero => exact (within_of_lt (Nat.succ_pos _) t).symm
  | succ depth =>
      rw [Decodes, Json.table, outline, table, Json.depth, within_succ,
        mapM_entry (h depth (Nat.lt_succ_self depth)), map_within, Table.ofList_entries]

/-! ### Records -/

/-- The members of an object give a record its fields one after the other, from `r` to `r'`. A
field that is not required may be left out. -/
inductive Fills (depth : Nat) : List (Field ρ) → ρ → List (String × Json) → ρ → Prop
  | done (r : ρ) : Fills depth [] r [] r
  | member {field : Field ρ} {fields : List (Field ρ)} {value : Json}
    {members : List (String × Json)} {r next r' : ρ}
    (hvalue : field.decode depth value.outline r = within depth value.depth next)
    (hmore : Fills depth fields next members r') :
    Fills depth (field :: fields) r ((field.key, value) :: members) r'
  | absent {field : Field ρ} {fields : List (Field ρ)} {members : List (String × Json)} {r r' : ρ}
    (hfield : field.isRequired = false) (hmore : Fills depth fields r members r') :
    Fills depth (field :: fields) r members r'

variable {fields : List (Field ρ)} {members : List (String × Json)} {key : String}
  {put : α → ρ → ρ} {r r' start : ρ}

theorem Fills.required (hvalue : Decodes depth d v a)
    (hmore : Fills depth fields (put a r) members r') :
    Fills depth (required key d put :: fields) r ((key, v) :: members) r' := by
  refine .member ?_ hmore
  change (d depth v.outline).map (put · r) = _
  rw [hvalue, map_within]

theorem Fills.defaulted (hvalue : Decodes depth d v a)
    (hmore : Fills depth fields (put a r) members r') :
    Fills depth (defaulted key d put :: fields) r ((key, v) :: members) r' := by
  refine .member ?_ hmore
  change (d depth v.outline).map (put · r) = _
  rw [hvalue, map_within]

/-- A member that is left out if it has no value. -/
theorem Fills.optional {d : Decoder β} {f : β → Json} {b : Option β} {put : Option β → ρ → ρ}
    (hvalue : ∀ c ∈ b, Decodes depth d (f c) c ∧ (f c).outline ≠ .null) (hnone : put none r = r)
    (hmore : Fills depth fields (put b r) members r') :
    Fills depth (Decoder.defaulted key (Decoder.nullable d) put :: fields) r
      (Json.optional key (b.map f) ++ members) r' := by
  cases b with
  | none =>
      rw [hnone] at hmore
      exact .absent rfl hmore
  | some c =>
      have ⟨hdecodes, hnull⟩ := hvalue c rfl
      exact .defaulted (hdecodes.nullable hnull) hmore

theorem find?_key {field : Field ρ} (hkeys : (fields.map Field.key).Nodup) (h : field ∈ fields) :
    fields.find? (fun other => other.key == field.key) = some field := by
  induction fields with
  | nil => cases h
  | cons first more ih =>
      have ⟨hfirst, hmore⟩ := List.nodup_cons.1 hkeys
      rcases List.mem_cons.1 h with rfl | h
      · rw [List.find?_cons, beq_self_eq_true]
      · have hne : first.key ≠ field.key := fun heq => hfirst (heq ▸ List.mem_map_of_mem h)
        rw [List.find?_cons_of_neg (by simpa using hne), ih hmore h]

/-- A member with the key of a field that is not there yet is read as that field. -/
theorem members_read {field : Field ρ} {seen : List String} (hkeys : (fields.map Field.key).Nodup)
    (hfield : field ∈ fields) (hseen : field.key ∉ seen) :
    Decoder.members fields depth seen r (memberOutlines ((field.key, v) :: members)) =
      field.decode depth v.outline r >>= fun next =>
        Decoder.members fields depth (field.key :: seen) next (memberOutlines members) := by
  have hcontains : seen.contains field.key = false := by simpa using hseen
  rw [memberOutlines, Decoder.members, find?_key hkeys hfield]
  simp only [hcontains, Bool.false_eq_true, if_false]

/-- A member that belongs to no field is skipped, whatever it is. -/
theorem members_skip {seen : List String} (h : ∀ field ∈ fields, field.key ≠ key) :
    Decoder.members fields depth seen r (memberOutlines ((key, v) :: members)) =
      Decoder.members fields depth seen r (memberOutlines members) := by
  have hnone : fields.find? (fun field => field.key == key) = none := by
    rw [List.find?_eq_none]
    intro field hfield
    simpa using h field hfield
  rw [memberOutlines, Decoder.members, hnone]
  simp only [isWhole_outline, if_true]

/-- By induction on how the fields are given: those before are there if they are required, and the
keys that were seen are theirs. -/
theorem members_of_fills {all before : List (Field ρ)} {seen : List String}
    (hall : all = before ++ fields) (hkeys : (all.map Field.key).Nodup)
    (hseen : ∀ key ∈ seen, key ∈ before.map Field.key)
    (hrequired : ∀ field ∈ before, field.isRequired = true → field.key ∈ seen)
    (h : Fills depth fields r members r') :
    Decoder.members all depth seen r (memberOutlines members) =
      within depth (memberDepths members) r' := by
  induction h generalizing before seen with
  | done r =>
      have hnone : all.find? (fun field => field.isRequired && !seen.contains field.key) = none := by
        rw [List.find?_eq_none]
        intro field hfield
        rw [hall, List.append_nil] at hfield
        have := hrequired field hfield
        simpa using this
      rw [memberOutlines, Decoder.members, hnone, memberDepths, within_zero]
  | @member field fields value members r next r' hvalue hmore ih =>
      have hfield : field ∈ all := hall ▸ List.mem_append_right _ (.head _)
      have hnew : field.key ∉ before.map Field.key := by
        rw [hall, List.map_append, List.nodup_append] at hkeys
        exact fun hmem => hkeys.2.2 _ hmem _ (List.mem_map_of_mem (.head _)) rfl
      rw [members_read hkeys hfield fun hmem => hnew (hseen _ hmem), hvalue, memberDepths]
      refine within_bind _ _ _ _ ?_
      refine @ih (before ++ [field]) _ (by rw [hall, List.append_assoc, List.singleton_append]) ?_ ?_
      · intro key hkey
        rw [List.map_append, List.mem_append]
        rcases List.mem_cons.1 hkey with rfl | hkey
        · exact .inr (.head _)
        · exact .inl (hseen key hkey)
      · intro other hother hreq
        rcases List.mem_append.1 hother with hother | hother
        · exact .tail _ (hrequired other hother hreq)
        · rw [List.mem_singleton.1 hother]
          exact .head _
  | @absent field fields members r r' hfield hmore ih =>
      refine @ih (before ++ [field]) _ (by rw [hall, List.append_assoc, List.singleton_append]) ?_ ?_
      · intro key hkey
        rw [List.map_append, List.mem_append]
        exact .inl (hseen key hkey)
      · intro other hother hreq
        rcases List.mem_append.1 hother with hother | hother
        · exact hrequired other hother hreq
        · rw [List.mem_singleton.1 hother, hfield] at hreq
          cases hreq

theorem decodes_record {name : String} (hkeys : (fields.map Field.key).Nodup)
    (h : ∀ inner < depth, Fills inner fields start members r) :
    Decodes depth (record name fields start) (.object members) r := by
  cases depth with
  | zero => exact (within_of_lt (Nat.succ_pos _) r).symm
  | succ depth =>
      have hseen : ∀ key ∈ ([] : List String), key ∈ ([] : List (Field ρ)).map Field.key := nofun
      have hrequired : ∀ field ∈ ([] : List (Field ρ)), field.isRequired = true →
          field.key ∈ ([] : List String) := nofun
      rw [Decodes, outline, record, Json.depth, within_succ]
      exact members_of_fills rfl hkeys hseen hrequired (h depth (Nat.lt_succ_self depth))

end Decoder

end Json

end Interaction
