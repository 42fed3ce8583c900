import Interaction.Proofs.Sorting
import Interaction.Proofs.Traversal
import Interaction.Table
import Mathlib.Data.List.Induction
import Mathlib.Data.List.Nodup

/-!
# What a table holds

Looking up a name and finding it among the entries come to the same, since the names of a table
are in strictly increasing order. Distinct names that all have a value are at most as many as the
entries. The entries of a table make that table again, and a table made of any entries has a value
for each of their names and for no other.
-/

namespace Interaction

namespace Table

variable {α β γ : Type}

theorem mem_of_lookup? {name : String} {value : α} {entries : List (String × α)}
    (h : lookup? name entries = some value) : (name, value) ∈ entries := by
  induction entries with
  | nil => cases h
  | cons entry more ih =>
      rw [lookup?] at h
      split at h
      next hname =>
        cases h
        rw [← hname]
        exact .head _
      next => exact .tail _ (ih h)

theorem lookup?_of_mem {name : String} {value : α} {entries : List (String × α)}
    (hsorted : entries.Pairwise fun a b => a.1 < b.1) (h : (name, value) ∈ entries) :
    lookup? name entries = some value := by
  induction entries with
  | nil => cases h
  | cons entry more ih =>
      have ⟨hentry, hmore⟩ := List.pairwise_cons.1 hsorted
      rw [lookup?]
      rcases List.mem_cons.1 h with rfl | hmem
      · rw [if_pos rfl]
      · have hne : entry.1 ≠ name := by
          intro heq
          exact String.lt_irrefl name (heq ▸ hentry (name, value) hmem)
        rw [if_neg hne]
        exact ih hmore hmem

/-- The name of the first entry does not come again. -/
theorem lookup?_tail {entry : String × α} {more : List (String × α)}
    (hsorted : (entry :: more).Pairwise fun a b => a.1 < b.1) : lookup? entry.1 more = none := by
  rw [Option.eq_none_iff_forall_ne_some]
  intro value hvalue
  have hlt := (List.pairwise_cons.1 hsorted).1 (entry.1, value) (mem_of_lookup? hvalue)
  exact String.lt_irrefl entry.1 hlt

theorem get?_eq_some_iff {t : Table α} {name : String} {value : α} :
    t.get? name = some value ↔ (name, value) ∈ t.entries :=
  ⟨mem_of_lookup?, lookup?_of_mem t.sorted⟩

theorem contains_iff_mem_names {t : Table α} {name : String} :
    t.contains name = true ↔ name ∈ t.names := by
  rw [contains, Option.isSome_iff_exists, names, List.mem_map]
  constructor
  · rintro ⟨value, h⟩
    exact ⟨(name, value), get?_eq_some_iff.1 h, rfl⟩
  · rintro ⟨entry, hmem, rfl⟩
    exact ⟨entry.2, get?_eq_some_iff.2 hmem⟩

theorem contains_of_get? {t : Table α} {name : String} {value : α}
    (h : t.get? name = some value) : t.contains name = true := by
  rw [contains, h, Option.isSome_some]

theorem insertEntry_insertEntry (name : String) (value : α) (entries : List (String × α)) :
    insertEntry name value (insertEntry name value entries) = insertEntry name value entries := by
  have hfirst (more : List (String × α)) :
      insertEntry name value ((name, value) :: more) = (name, value) :: more := by
    rw [insertEntry, if_neg (String.lt_irrefl name), if_pos rfl]
  induction entries with
  | nil => exact hfirst []
  | cons entry more ih =>
      rw [insertEntry]
      split
      next => exact hfirst _
      next hlt =>
        split
        next => exact hfirst _
        next hne => rw [insertEntry, if_neg hlt, if_neg hne, ih]

theorem insert_insert (t : Table α) (name : String) (value : α) :
    (t.insert name value).insert name value = t.insert name value :=
  ext_entries (insertEntry_insertEntry name value t.entries)

/-- Distinct names that have a value are at most as many as the entries. -/
theorem length_le_size {t : Table α} {keys : List String} (hnodup : keys.Nodup)
    (h : ∀ key ∈ keys, t.contains key = true) : keys.length ≤ t.size := by
  have hsubset : keys ⊆ t.names := fun key hkey => contains_iff_mem_names.1 (h key hkey)
  have hlength : keys.length ≤ t.names.length := hnodup.length_le_of_subset hsubset
  rwa [names, List.length_map] at hlength

/-- Giving a value to a name in a table of tables. -/
theorem get?_update_insert (t : Table (Table α)) (key name : String) (value : α)
    (key' name' : String) :
    ((t.update key ∅ fun inner => inner.insert name value).get? key').bind
        (fun inner => inner.get? name') =
      if key = key' ∧ name = name' then some value
      else (t.get? key').bind fun inner => inner.get? name' := by
  rw [update, get?_insert]
  by_cases hkey : key = key'
  · subst hkey
    rw [if_pos rfl, Option.bind_some, get?_insert]
    by_cases hname : name = name'
    · rw [if_pos hname, if_pos ⟨rfl, hname⟩]
    · rw [if_neg hname, if_neg fun h => hname h.2]
      cases t.get? key <;> rfl
  · rw [if_neg hkey, if_neg fun h => hkey h.1]

theorem pairwise_names (t : Table α) : t.names.Pairwise (· < ·) :=
  List.pairwise_map.2 t.sorted

theorem names_map (f : α → β) (t : Table α) : (t.map f).names = t.names :=
  List.map_map

theorem map_map (g : β → γ) (f : α → β) (t : Table α) : (t.map f).map g = t.map (g ∘ f) :=
  ext_entries List.map_map

theorem map_congr {f g : α → β} {t : Table α} (h : ∀ entry ∈ t.entries, f entry.2 = g entry.2) :
    t.map f = t.map g :=
  ext_entries (List.map_congr_left fun entry hentry => by rw [h entry hentry])

theorem find?_entries (t : Table α) (name : String) :
    (t.entries.find? fun entry => entry.1 == name) =
      (t.get? name).map fun value => (name, value) := by
  obtain ⟨entries, sorted⟩ := t
  rw [get?]
  dsimp only
  clear sorted
  induction entries with
  | nil => rfl
  | cons entry more ih =>
      rw [List.find?_cons, lookup?]
      by_cases hname : entry.1 = name
      · subst hname
        simp
      · rw [if_neg hname, beq_false_of_ne hname, ← ih]

/-! ### Tables of given entries -/

theorem insertEntry_of_lt {name : String} {value : α} {entries : List (String × α)}
    (h : ∀ entry ∈ entries, entry.1 < name) :
    insertEntry name value entries = entries ++ [(name, value)] := by
  induction entries with
  | nil => rfl
  | cons entry more ih =>
      have hlt : entry.1 < name := h entry (.head _)
      have hnot : ¬ name < entry.1 := fun hgt => String.lt_irrefl _ (String.lt_trans hlt hgt)
      have hne : name ≠ entry.1 := fun heq => String.lt_irrefl _ (heq ▸ hlt)
      rw [insertEntry, if_neg hnot, if_neg hne, ih fun e he => h e (.tail _ he), List.cons_append]

/-- Entries that stand in order come after those that are there. -/
theorem entries_foldl_insert {entries : List (String × α)} (t : Table α)
    (h : (t.entries ++ entries).Pairwise fun a b => a.1 < b.1) :
    (entries.foldl (fun t entry => t.insert entry.1 entry.2) t).entries = t.entries ++ entries := by
  induction entries generalizing t with
  | nil => rw [List.foldl_nil, List.append_nil]
  | cons entry more ih =>
      have hlt : ∀ e ∈ t.entries, e.1 < entry.1 := by
        intro e he
        exact (List.pairwise_append.1 h).2.2 e he entry (.head _)
      have hinsert : (t.insert entry.1 entry.2).entries = t.entries ++ [entry] :=
        insertEntry_of_lt hlt
      rw [List.foldl_cons, ih, hinsert, List.append_assoc, List.singleton_append]
      rwa [hinsert, List.append_assoc, List.singleton_append]

theorem ofList_entries (t : Table α) : ofList t.entries = t :=
  ext_entries (entries_foldl_insert empty t.sorted)

/-- Inserting the entries of a table into another one puts its values over those that are there. -/
theorem get?_foldl_insert (start t : Table α) (name : String) :
    (t.entries.foldl (fun known entry => known.insert entry.1 entry.2) start).get? name =
      (t.get? name).or (start.get? name) := by
  obtain ⟨entries, sorted⟩ := t
  change (entries.foldl _ start).get? name = (lookup? name entries).or (start.get? name)
  induction entries generalizing start with
  | nil => rfl
  | cons entry more ih =>
      rw [List.foldl_cons, ih _ (List.pairwise_cons.1 sorted).2, get?_insert, lookup?]
      by_cases hname : entry.1 = name
      · rw [if_pos hname, if_pos hname, ← hname, lookup?_tail sorted, Option.none_or,
          Option.some_or]
      · rw [if_neg hname, if_neg hname]

/-- A table holds no other entries than those it was made of. -/
theorem mem_of_mem_ofList {entries : List (String × α)} {entry : String × α}
    (h : entry ∈ (ofList entries).entries) : entry ∈ entries := by
  have hstart : entry ∈ (empty : Table α).entries → entry ∈ ([] : List (String × α)) := nofun
  have hstep : ∀ (done : List (String × α)) (t : Table α) (next : String × α),
      (entry ∈ t.entries → entry ∈ done) →
        entry ∈ (t.insert next.1 next.2).entries → entry ∈ done ++ [next] := by
    intro done t next ih hmem
    rcases mem_insertEntry hmem with rfl | hmem
    · exact List.mem_append_right _ (.head _)
    · exact List.mem_append_left _ (ih hmem)
  exact foldl_invariant (I := fun done (t : Table α) => entry ∈ t.entries → entry ∈ done) hstart
    hstep entries h

/-- Of the values that are given for a name the last counts. -/
theorem get?_ofList (entries : List (String × α)) (name : String) :
    (ofList entries).get? name =
      ((entries.filter fun entry => entry.1 = name).getLast?).map Prod.snd := by
  induction entries using List.reverseRecOn with
  | nil => rfl
  | append_singleton entries entry ih =>
      rw [ofList, List.foldl_concat, ← ofList, get?_insert, List.filter_append]
      by_cases hname : entry.1 = name
      · simp [hname]
      · simp [hname, ih]

/-- A table has a value for each name that it was made with, and it is one of those given for the
name. -/
theorem exists_get?_ofList {entries : List (String × α)} {name : String}
    (h : name ∈ entries.map Prod.fst) :
    ∃ value, (ofList entries).get? name = some value ∧ (name, value) ∈ entries := by
  obtain ⟨entry, hentry, rfl⟩ := List.mem_map.1 h
  have hgiven : entry ∈ entries.filter fun e => e.1 = entry.1 :=
    List.mem_filter.2 ⟨hentry, decide_eq_true rfl⟩
  obtain ⟨last, hlast⟩ : ∃ last, (entries.filter fun e => e.1 = entry.1).getLast? = some last :=
    ⟨_, List.getLast?_eq_some_getLast (List.ne_nil_of_mem hgiven)⟩
  have hget : (ofList entries).get? entry.1 = some last.2 := by
    rw [get?_ofList, hlast, Option.map_some]
  obtain ⟨hmem, hname⟩ := List.mem_filter.1 (List.mem_of_getLast? hlast)
  rw [← of_decide_eq_true hname] at hget ⊢
  exact ⟨last.2, hget, hmem⟩

/-- If the names are distinct, each has the value that is given for it. -/
theorem get?_ofList_of_nodup {entries : List (String × α)} (h : (entries.map Prod.fst).Nodup)
    (name : String) : (ofList entries).get? name = lookup? name entries := by
  rw [get?_ofList]
  induction entries with
  | nil => rfl
  | cons entry more ih =>
      have ⟨hentry, hmore⟩ := List.nodup_cons.1 h
      rw [lookup?, List.filter_cons]
      by_cases hname : entry.1 = name
      · have hnone : (more.filter fun e => e.1 = name) = [] := by
          rw [List.filter_eq_nil_iff]
          intro other hother heq
          have heq : other.1 = name := of_decide_eq_true heq
          exact hentry (hname ▸ heq ▸ List.mem_map_of_mem (f := Prod.fst) hother)
        rw [if_pos hname, if_pos (decide_eq_true hname), hnone]
        rfl
      · rw [if_neg hname, if_neg (by simpa using hname), ih hmore]

theorem get?_ofList_of_not_mem {entries : List (String × α)} {name : String}
    (h : name ∉ entries.map Prod.fst) : (ofList entries).get? name = none := by
  rw [Option.eq_none_iff_forall_ne_some]
  intro value hvalue
  exact h (List.mem_map_of_mem (f := Prod.fst) (mem_of_mem_ofList (get?_eq_some_iff.1 hvalue)))

theorem contains_ofList {entries : List (String × α)} {name : String} :
    (ofList entries).contains name = true ↔ name ∈ entries.map Prod.fst := by
  constructor
  · intro h
    by_contra hmem
    rw [contains, get?_ofList_of_not_mem hmem] at h
    cases h
  · intro h
    obtain ⟨value, hvalue, -⟩ := exists_get?_ofList h
    exact contains_of_get? hvalue

/-- If no name has two values, nothing of what a table is made of is lost. -/
theorem mem_ofList_iff {entries : List (String × α)}
    (hone : ∀ a ∈ entries, ∀ b ∈ entries, a.1 = b.1 → a = b) {entry : String × α} :
    entry ∈ (ofList entries).entries ↔ entry ∈ entries := by
  refine ⟨mem_of_mem_ofList, fun hentry => ?_⟩
  obtain ⟨value, hvalue, hmem⟩ := exists_get?_ofList (List.mem_map_of_mem (f := Prod.fst) hentry)
  rw [hone entry hentry _ hmem rfl]
  exact get?_eq_some_iff.1 hvalue

theorem nodup_names (t : Table α) : (t.entries.map Prod.fst).Nodup := by
  refine (List.pairwise_map.2 t.sorted).imp fun hlt => ?_
  rintro rfl
  exact String.lt_irrefl _ hlt

/-- The entries of a table are those it was made of, if their names are distinct. -/
theorem perm_ofList {entries : List (String × α)} (h : (entries.map Prod.fst).Nodup) :
    (ofList entries).entries.Perm entries := by
  refine (List.perm_ext_iff_of_nodup (List.Nodup.of_map _ (ofList entries).nodup_names)
    (List.Nodup.of_map _ h)).2 fun entry => ?_
  exact mem_ofList_iff fun a ha b hb => List.inj_on_of_nodup_map h ha hb

/-- If no name has two values, the order and the repetition of entries do not matter. -/
theorem ofList_congr {entries others : List (String × α)}
    (hone : ∀ a ∈ entries, ∀ b ∈ entries, a.1 = b.1 → a = b)
    (h : ∀ entry, entry ∈ entries ↔ entry ∈ others) : ofList entries = ofList others := by
  have hother : ∀ a ∈ others, ∀ b ∈ others, a.1 = b.1 → a = b :=
    fun a ha b hb => hone a ((h a).2 ha) b ((h b).2 hb)
  refine ext_entries (eq_of_pairwise_name (ofList entries).sorted (ofList others).sorted ?_)
  intro entry
  rw [mem_ofList_iff hone, mem_ofList_iff hother, h]

/-- The last entry of a table is the last one that is given for the greatest name. -/
theorem getLast?_entries_ofList (entries : List (String × α)) :
    (ofList entries).entries.getLast? = (entries.mergeSort fun a b => a.1 ≤ b.1).getLast? := by
  cases hlast : (entries.mergeSort fun a b => a.1 ≤ b.1).getLast? with
  | none =>
      have hperm := List.mergeSort_perm entries fun a b => a.1 ≤ b.1
      rw [List.getLast?_eq_none_iff.1 hlast, List.nil_perm] at hperm
      rw [hperm]
      rfl
  | some greatest =>
      obtain ⟨hle, hname⟩ := of_getLast?_mergeSort_name hlast
      have hget : (ofList entries).get? greatest.1 = some greatest.2 := by
        rw [get?_ofList, hname, Option.map_some]
      have hmem : greatest ∈ (ofList entries).entries := get?_eq_some_iff.1 hget
      obtain ⟨before, last, heq⟩ :=
        (List.eq_nil_or_concat _).resolve_left (List.ne_nil_of_mem hmem)
      have hsorted := (ofList entries).sorted
      rw [heq, List.concat_eq_append] at hmem hsorted ⊢
      have hlastmem : last ∈ entries := mem_of_mem_ofList (by rw [heq]; simp)
      rcases List.mem_append.1 hmem with hbefore | hmem
      · have hlt := (List.pairwise_append.1 hsorted).2.2 greatest hbefore last (.head _)
        exact absurd hlt (String.not_lt.2 (hle last hlastmem))
      · rw [List.mem_singleton.1 hmem, List.getLast?_concat]

end Table

end Interaction
