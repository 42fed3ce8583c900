import Interaction.Json.Value
import Interaction.Table

/-!
# JSON values in the order of their keys

A value has one form in which the members of every object stand in the order of their keys, and
each key comes once.
-/

namespace Interaction

namespace Json

mutual

/-- The value with the members of its objects in the order of their keys. Of members with one key
the last one counts. -/
def sorted : Json → Json
  | .null => .null
  | .bool value => .bool value
  | .number value => .number value
  | .string value => .string value
  | .array items => .array (sortedItems items)
  | .object members => .object (Table.ofList (sortedMembers members)).entries

def sortedItems : List Json → List Json
  | [] => []
  | item :: more => item.sorted :: sortedItems more

def sortedMembers : List (String × Json) → List (String × Json)
  | [] => []
  | member :: more => sortedMember member :: sortedMembers more

def sortedMember : String × Json → String × Json
  | (key, value) => (key, value.sorted)

end

end Json

end Interaction
