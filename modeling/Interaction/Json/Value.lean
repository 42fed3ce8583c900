import Interaction.Json.Number

/-!
# JSON values

A value of the data format, with the members of an object in the order in which they are written.
-/

namespace Interaction

inductive Json where
  | null
  | bool (value : Bool)
  | number (value : Json.Number)
  | string (value : String)
  | array (items : List Json)
  | object (members : List (String × Json))
  deriving Repr

namespace Json

def nat (n : Nat) : Json :=
  .number (.integer n)

def strings (items : List String) : Json :=
  .array (items.map .string)

/-- An object whose member is left out if it has no value. -/
def optional (key : String) (value : Option Json) : List (String × Json) :=
  match value with
  | none => []
  | some v => [(key, v)]

/-- A table, as an object. -/
def table {α : Type} (f : α → Json) (entries : List (String × α)) : Json :=
  .object (entries.map fun entry => (entry.1, f entry.2))

end Json

end Interaction
