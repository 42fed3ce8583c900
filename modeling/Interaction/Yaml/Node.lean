import Interaction.Decimal.Digits
import Interaction.Table
import Interaction.Text.Hex

/-!
# YAML nodes

What a YAML text holds, and how values are taken out of it. Every scalar may be taken as a text. A
number or an absent value is told by a scalar without quotes only, and such a scalar that is empty
also stands for a collection without members.
-/

namespace Interaction

namespace Yaml

inductive Node where
  /-- There is no document. -/
  | nothing
  | scalar (text : String) (isPlain : Bool)
  | sequence (items : List Node)
  | mapping (members : List (Node × Node))
  deriving Repr

/-- How a text that is no YAML, or whose nodes are not as they should be, is referred to. -/
def fault : String := "<yaml>"

namespace Node

/-- The node that is left out. -/
def absent : Node :=
  scalar "" true

def text? : Node → Option String
  | scalar text _ => some text
  | _ => none

def items? : Node → Option (List Node)
  | sequence items => some items
  | nothing => some []
  | scalar "" true => some []
  | _ => none

/-- The members of a mapping, by the texts of their keys. -/
def members? (node : Node) : Option (List (String × Node)) :=
  match node with
  | mapping members => members.mapM fun member => (member.1.text?).map fun key => (key, member.2)
  | nothing => some []
  | scalar "" true => some []
  | _ => none

/-- The value of digits in a base, none if there is another character. -/
def digitsIn? (base : Nat) (cs : List Char) : Option Nat :=
  if cs = [] then none
  else
    cs.foldl
      (fun known c => do
        let n ← known
        let d ← Text.hexValue? c
        if d < base then some (n * base + d) else none)
      (some 0)

/-- A numeral of the given characters, in base sixteen, eight or two after a mark and else in base
ten, where a zero comes first only alone. -/
def numeral? (cs : List Char) : Option Nat :=
  match cs with
  | '0' :: 'x' :: more => digitsIn? 16 more
  | '0' :: 'o' :: more => digitsIn? 8 more
  | '0' :: 'b' :: more => digitsIn? 2 more
  | '0' :: _ :: _ => none
  | _ => digitsIn? 10 cs

/-- A natural number of sixty-four bits. -/
def natural? : Node → Option Nat
  | scalar text true => do
    let n ← numeral? (match text.toList with
      | '+' :: more => more
      | cs => cs)
    if n ≤ Decimal.wordMax then some n else none
  | _ => none

/-- Whether a node says that there is no value. -/
def isNull : Node → Bool
  | nothing => true
  | scalar text true => ["", "~", "null", "Null", "NULL"].contains text
  | _ => false

def texts? (node : Node) : Option (List String) := do
  (← node.items?).mapM text?

/-- A mapping as a table, of which the last one of each key counts. -/
def table? {α : Type} (value? : Node → Option α) (node : Node) : Option (Table α) := do
  let members ← node.members?
  let entries ← members.mapM fun member => (value? member.2).map fun value => (member.1, value)
  return Table.ofList entries

/-- A member of a record by its name. -/
structure Field (ρ : Type) where
  key : String
  isRequired : Bool := false
  put? : Node → ρ → Option ρ

/-- A record, which starts from `start`. A known field may come only once, and others are
skipped. -/
def record? {ρ : Type} (fields : List (Field ρ)) (start : ρ) (node : Node) : Option ρ := do
  let members ← node.members?
  let known := members.filter fun member => fields.any fun field => field.key == member.1
  let keys := known.map Prod.fst
  if keys.eraseDups.length = keys.length ∧
      fields.all fun field => !field.isRequired || keys.contains field.key then
    known.foldlM
      (fun r member =>
        match fields.find? fun field => field.key == member.1 with
        | some field => field.put? member.2 r
        | none => some r)
      start
  else none

end Node

end Yaml

end Interaction
