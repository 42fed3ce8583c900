import Interaction.Json.Outline
import Interaction.Table

/-!
# Decoding JSON

A decoder turns an outline into a value of some type. It visits the parts of the outline in order
and answers the first problem it meets. It carries the number of arrays and objects that may still
be entered, so a text that is nested too deeply where it is read is unreadable.

A record is decoded from an object or from an array. In an object, unknown members are skipped, a
known one may come only once, and at the end the first required field that did not come is
missing. An array holds the fields in order; fields at the end may be left out if none of them is
required.
-/

namespace Interaction

namespace Json

/-- What was found in the place of something else. -/
inductive Found where
  | null
  | bool (value : Bool)
  | number (value : Number)
  | string (value : String)
  | sequence
  | map
  deriving DecidableEq, Repr

/-- Why a text could not be decoded. -/
inductive Problem where
  /-- The text is no JSON, or a part that is read cannot be. -/
  | unreadable
  | missingField (name : String)
  | duplicateField (name : String)
  | wrongType (found : Found) (expected : String)
  /-- A value of the right type that is out of range. -/
  | wrongValue (found : Found) (expected : String)
  /-- An array with too few fields for a record. -/
  | wrongLength (length : Nat) (record : String) (fields : Nat)
  /-- An array with more items than a record has fields. -/
  | surplusItems
  deriving DecidableEq, Repr

/-- Whether a problem lies with the text, and not with what it says. -/
def Problem.isOfText : Problem → Bool
  | unreadable => true
  | surplusItems => true
  | _ => false

/-- A reader of values of type `α`; its first argument says how many levels of nesting it may
enter. -/
abbrev Decoder (α : Type) := Nat → Outline → Except Problem α

namespace Decoder

/-- The problem of an outline where another type is expected. -/
def mismatch (expected : String) : Outline → Problem
  | .null => .wrongType .null expected
  | .bool value => .wrongType (.bool value) expected
  | .number (some value) => .wrongType (.number value) expected
  | .string (some value) => .wrongType (.string value) expected
  | .array _ => .wrongType .sequence expected
  | .object _ => .wrongType .map expected
  | .number none => .unreadable
  | .string none => .unreadable
  | .broken => .unreadable

def string : Decoder String := fun _ o =>
  match o with
  | .string (some value) => .ok value
  | other => .error (mismatch "a string" other)

/-- A natural number of sixty-four bits, called by `name` where it is missed. -/
def natural (name : String) : Decoder Nat := fun _ o =>
  match o with
  | .number (some (.integer value)) =>
    if 0 ≤ value then .ok value.toNat else .error (.wrongValue (.number (.integer value)) name)
  | other => .error (mismatch name other)

/-- Either null, which stands for nothing, or what `d` decodes. -/
def nullable {α : Type} (d : Decoder α) : Decoder (Option α) := fun depth o =>
  match o with
  | .null => .ok none
  | other => (d depth other).map some

/-- Either null, which stands for `default`, or what `d` decodes. -/
def orDefault {α : Type} (default : α) (d : Decoder α) : Decoder α := fun depth o =>
  (nullable d depth o).map fun found => found.getD default

def list {α : Type} (d : Decoder α) : Decoder (List α) := fun depth o =>
  match o, depth with
  | .array _, 0 => .error .unreadable
  | .array items, depth + 1 => items.mapM (d depth)
  | other, _ => .error (mismatch "a sequence" other)

def entry {α : Type} (d : Decoder α) (depth : Nat) (member : Option String × Outline) :
    Except Problem (String × α) :=
  match member.1 with
  | none => .error .unreadable
  | some key => (d depth member.2).map fun value => (key, value)

def table {α : Type} (d : Decoder α) : Decoder (Table α) := fun depth o =>
  match o, depth with
  | .object _, 0 => .error .unreadable
  | .object members, depth + 1 => (members.mapM (entry d depth)).map Table.ofList
  | other, _ => .error (mismatch "a map" other)

structure Field (ρ : Type) where
  key : String
  isRequired : Bool
  decode : Nat → Outline → ρ → Except Problem ρ

def required {ρ α : Type} (key : String) (d : Decoder α) (put : α → ρ → ρ) : Field ρ :=
  ⟨key, true, fun depth o r => (d depth o).map fun value => put value r⟩

/-- A field that may be left out. -/
def defaulted {ρ α : Type} (key : String) (d : Decoder α) (put : α → ρ → ρ) : Field ρ :=
  ⟨key, false, fun depth o r => (d depth o).map fun value => put value r⟩

/-- The members of an object, as the fields of a record that already has those in `seen`. -/
def members {ρ : Type} (fields : List (Field ρ)) (depth : Nat) (seen : List String) (r : ρ) :
    List (Option String × Outline) → Except Problem ρ
  | [] =>
    match fields.find? fun field => field.isRequired && !seen.contains field.key with
    | some field => .error (.missingField field.key)
    | none => .ok r
  | (none, _) :: _ => .error .unreadable
  | (some key, value) :: more =>
    match fields.find? fun field => field.key == key with
    | some field =>
      if seen.contains key then .error (.duplicateField key)
      else do
        let r ← field.decode depth value r
        members fields depth (key :: seen) r more
    | none =>
      if value.isWhole then members fields depth seen r more else .error .unreadable

/-- The items of an array, as the fields of a record of which `given` are already there. `name` and
`total` describe the record. -/
def items {ρ : Type} (name : String) (total depth given : Nat) (r : ρ) :
    List (Field ρ) → List Outline → Except Problem ρ
  | [], [] => .ok r
  | [], _ :: _ => .error .surplusItems
  | field :: fields, [] =>
    if field.isRequired then .error (.wrongLength given name total)
    else items name total depth (given + 1) r fields []
  | field :: fields, value :: more => do
    let r ← field.decode depth value r
    items name total depth (given + 1) r fields more

/-- A record, which starts from `start`. -/
def record {ρ : Type} (name : String) (fields : List (Field ρ)) (start : ρ) : Decoder ρ :=
  fun depth o =>
    match o, depth with
    | .object _, 0 => .error .unreadable
    | .array _, 0 => .error .unreadable
    | .object ms, depth + 1 => members fields depth [] start ms
    | .array is, depth + 1 => items name fields.length depth 0 start fields is
    | other, _ => .error (mismatch ("struct " ++ name) other)

mutual

/-- Any value, with the members of its objects in the order of their keys. -/
def value : (depth : Nat) → Outline → Except Problem Json
  | _, .null => .ok .null
  | _, .bool b => .ok (.bool b)
  | _, .number (some n) => .ok (.number n)
  | _, .string (some s) => .ok (.string s)
  | _, .number none => .error .unreadable
  | _, .string none => .error .unreadable
  | _, .broken => .error .unreadable
  | 0, .array _ => .error .unreadable
  | 0, .object _ => .error .unreadable
  | depth + 1, .array is => (values depth is).map .array
  | depth + 1, .object ms =>
    (memberValues depth ms).map fun found => .object (Table.ofList found).entries

def values : (depth : Nat) → List Outline → Except Problem (List Json)
  | _, [] => .ok []
  | depth, o :: more => do
    let first ← value depth o
    let rest ← values depth more
    return first :: rest

def memberValues : (depth : Nat) → List (Option String × Outline) →
    Except Problem (List (String × Json))
  | _, [] => .ok []
  | _, (none, _) :: _ => .error .unreadable
  | depth, (some key, o) :: more => do
    let first ← value depth o
    let rest ← memberValues depth more
    return (key, first) :: rest

end

/-- How many levels of nesting a reader may enter. -/
def maxDepth : Nat := 127

def runFront {α : Type} (d : Decoder α) (input : List Symbol) : Except Problem α :=
  d maxDepth (Outline.parse input).1

/-- Decodes a whole text; anything but blanks after the value makes it unreadable. -/
def run {α : Type} (d : Decoder α) (input : List Symbol) : Except Problem α := do
  let parsed := Outline.parse input
  let found ← d maxDepth parsed.1
  if parsed.2 then return found else throw .unreadable

end Decoder

end Json

end Interaction
