import Interaction.Json.Decoder
import Interaction.Text.Quoted

/-!
# The wording of decoding problems
-/

namespace Interaction

namespace Json

def Found.message : Found → String
  | null => "null"
  | bool true => "boolean `true`"
  | bool false => "boolean `false`"
  | number (.integer value) => "integer `" ++ String.ofList (Decimal.integer value) ++ "`"
  | number (.double text) => "floating point `" ++ text ++ "`"
  | string value => "string " ++ Text.quote value
  | sequence => "sequence"
  | map => "map"

def Problem.message : Problem → String
  | unreadable => "json syntax"
  | missingField name => s!"missing field `{name}`"
  | duplicateField name => s!"duplicate field `{name}`"
  | wrongType found expected => s!"invalid type: {found.message}, expected {expected}"
  | wrongValue found expected => s!"invalid value: {found.message}, expected {expected}"
  | wrongLength length record fields =>
    let noun := if fields = 1 then "element" else "elements"
    s!"invalid length {length}, expected struct {record} with {fields} {noun}"
  | surplusItems => "trailing characters"

end Json

end Interaction
