/-!
# Kinds of interaction and document formats

An interaction is a script, which only reads, or a transaction, which may change state. Its
template is stored in one of two document formats, told apart by a version tag.
-/

namespace Interaction

/-- What an interaction does when it is run. -/
inductive Kind where
  | script
  | transaction
  deriving DecidableEq, Repr

namespace Kind

def name : Kind → String
  | script => "script"
  | transaction => "transaction"

def ofName? (word : String) : Option Kind :=
  if word = "script" then some script
  else if word = "transaction" then some transaction
  else none

/-- Whether an interaction of this kind leaves all state alone. -/
def isReadOnly (kind : Kind) : Bool :=
  kind == script

theorem ofName?_name (kind : Kind) : ofName? kind.name = some kind := by
  cases kind <;> decide

end Kind

/-- The two layouts of a template document. The keyed one, 1.0.0, finds arguments and dependencies
by name; the listed one, 1.1.0, keeps them in order and carries pin trees. -/
inductive Format where
  | keyed
  | listed
  deriving DecidableEq, Repr

namespace Format

def tag : Format → String
  | keyed => "1.0.0"
  | listed => "1.1.0"

def ofTag? (tag : String) : Option Format :=
  if tag = "1.0.0" then some keyed
  else if tag = "1.1.0" then some listed
  else none

theorem ofTag?_tag (format : Format) : ofTag? format.tag = some format := by
  cases format <;> decide

/-- A tag names a format exactly when it is that format's tag. -/
theorem ofTag?_eq_some_iff {tag : String} {format : Format} :
    ofTag? tag = some format ↔ tag = format.tag := by
  constructor
  · unfold ofTag?
    split
    · rintro ⟨⟩
      assumption
    · split
      · rintro ⟨⟩
        assumption
      · exact nofun
  · rintro rfl
    exact ofTag?_tag format

end Format

end Interaction
