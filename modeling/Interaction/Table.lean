/-!
# Tables

A table maps names to values and is held as a list of entries in strictly increasing order of the
names, which is the order of their code points. Two tables with the same entries are equal, so a
table has one form. The view of a table is `get?`; what each operation does to it is said by
`get?_insert` and `get?_empty`.
-/

namespace Interaction

/-- A finite map from names, in the order of the names. -/
structure Table (α : Type) where
  entries : List (String × α)
  sorted : entries.Pairwise fun a b => a.1 < b.1

namespace Table

variable {α β : Type}

theorem ext_entries {s t : Table α} (h : s.entries = t.entries) : s = t := by
  cases s
  cases t
  cases h
  rfl

instance [DecidableEq α] : DecidableEq (Table α) := fun s t =>
  if h : s.entries = t.entries then isTrue (ext_entries h)
  else isFalse fun same => h (same ▸ rfl)

instance [Repr α] : Repr (Table α) :=
  ⟨fun t n => reprPrec t.entries n⟩

def empty : Table α :=
  ⟨[], .nil⟩

instance : EmptyCollection (Table α) :=
  ⟨empty⟩

instance : Inhabited (Table α) :=
  ⟨empty⟩

/-- The value of a name in a list of entries. -/
def lookup? (name : String) : List (String × α) → Option α
  | [] => none
  | entry :: more => if entry.1 = name then some entry.2 else lookup? name more

def get? (t : Table α) (name : String) : Option α :=
  lookup? name t.entries

def contains (t : Table α) (name : String) : Bool :=
  (t.get? name).isSome

def names (t : Table α) : List String :=
  t.entries.map Prod.fst

def values (t : Table α) : List α :=
  t.entries.map Prod.snd

def size (t : Table α) : Nat :=
  t.entries.length

/-- Puts an entry where it belongs, in the place of an entry of the same name if there is one. -/
def insertEntry (name : String) (value : α) : List (String × α) → List (String × α)
  | [] => [(name, value)]
  | entry :: more =>
    if name < entry.1 then (name, value) :: entry :: more
    else if name = entry.1 then (name, value) :: more
    else entry :: insertEntry name value more

theorem mem_insertEntry {name : String} {value : α} {entry : String × α}
    {entries : List (String × α)} (h : entry ∈ insertEntry name value entries) :
    entry = (name, value) ∨ entry ∈ entries := by
  induction entries with
  | nil => exact .inl (List.mem_singleton.1 h)
  | cons first more ih =>
    rw [insertEntry] at h
    split at h
    · exact (List.mem_cons.1 h)
    · split at h
      · exact (List.mem_cons.1 h).imp_right fun m => .tail _ m
      · rcases List.mem_cons.1 h with rfl | h
        · exact .inr (.head _)
        · exact (ih h).imp_right fun m => .tail _ m

theorem lt_of_not_lt_of_ne {a b : String} (hlt : ¬ a < b) (hne : a ≠ b) : b < a := by
  refine Classical.byContradiction fun h => hne ?_
  exact String.le_antisymm (String.not_lt.1 h) (String.not_lt.1 hlt)

theorem insertEntry_sorted (name : String) (value : α) {entries : List (String × α)}
    (h : entries.Pairwise fun a b => a.1 < b.1) :
    (insertEntry name value entries).Pairwise fun a b => a.1 < b.1 := by
  induction entries with
  | nil => exact List.pairwise_singleton _ _
  | cons first more ih =>
    have ⟨hfirst, hmore⟩ := List.pairwise_cons.1 h
    rw [insertEntry]
    split
    next hlt =>
      refine List.pairwise_cons.2 ⟨fun entry hentry => ?_, h⟩
      rcases List.mem_cons.1 hentry with rfl | hentry
      · exact hlt
      · exact String.lt_trans hlt (hfirst entry hentry)
    next hlt =>
      split
      next heq =>
        exact List.pairwise_cons.2 ⟨fun entry hentry => heq ▸ hfirst entry hentry, hmore⟩
      next hne =>
        refine List.pairwise_cons.2 ⟨fun entry hentry => ?_, ih hmore⟩
        rcases mem_insertEntry hentry with rfl | hentry
        · exact lt_of_not_lt_of_ne hlt hne
        · exact hfirst entry hentry

/-- Gives a name a value, which takes the place of an earlier one. -/
def insert (t : Table α) (name : String) (value : α) : Table α :=
  ⟨insertEntry name value t.entries, insertEntry_sorted name value t.sorted⟩

/-- Changes the value of a name, which starts from a given value if the name is new. -/
def update (t : Table α) (name : String) (start : α) (change : α → α) : Table α :=
  t.insert name (change ((t.get? name).getD start))

/-- The table of a list of entries, of which the last one of each name counts. -/
def ofList (entries : List (String × α)) : Table α :=
  entries.foldl (fun t entry => t.insert entry.1 entry.2) empty

def map (f : α → β) (t : Table α) : Table β :=
  ⟨t.entries.map fun entry => (entry.1, f entry.2), t.sorted.map _ fun _ _ h => h⟩

theorem get?_empty (name : String) : (empty : Table α).get? name = none :=
  rfl

theorem lookup?_insertEntry (name other : String) (value : α) (entries : List (String × α)) :
    lookup? other (insertEntry name value entries) =
      if name = other then some value else lookup? other entries := by
  induction entries with
  | nil => rfl
  | cons first more ih =>
    rw [insertEntry]
    split
    · rfl
    · split
      next heq =>
        by_cases h : name = other
        · simp [lookup?, h]
        · simp [lookup?, h, heq ▸ h]
      next hne =>
        rw [lookup?, ih, lookup?]
        by_cases hfirst : first.1 = other
        · have : name ≠ other := fun h => hne (h.trans hfirst.symm)
          simp [hfirst, this]
        · simp [hfirst]

theorem get?_insert (t : Table α) (name other : String) (value : α) :
    (t.insert name value).get? other = if name = other then some value else t.get? other :=
  lookup?_insertEntry name other value t.entries

theorem lookup?_map (f : α → β) (name : String) (entries : List (String × α)) :
    lookup? name (entries.map fun entry => (entry.1, f entry.2)) =
      (lookup? name entries).map f := by
  induction entries with
  | nil => rfl
  | cons first more ih =>
    simp only [List.map_cons, lookup?]
    split
    · rfl
    · exact ih

theorem get?_map (f : α → β) (t : Table α) (name : String) :
    (t.map f).get? name = (t.get? name).map f :=
  lookup?_map f name t.entries

end Table

end Interaction
