import Interaction.Yaml.Node
import Interaction.Yaml.Token

/-!
# Documents of YAML

The node that the tokens of a text make up. What is left out, as an item after a hyphen or a value
after a colon, is an absent node.
-/

namespace Interaction

namespace Yaml

mutual

/-- A node. Inside a flow collection it is no block collection. The value of a block mapping may be
a sequence whose items start in the column of the mapping, which is not marked. -/
def node? : (fuel : Nat) → (inBlock ofMapping : Bool) → List Token → Option (Node × List Token)
  | 0, _, _, _ => none
  | fuel + 1, inBlock, ofMapping, tokens =>
    match tokens with
    | .scalar text isPlain :: more => some (.scalar text isPlain, more)
    | .openBracket :: more => (flowItems? fuel more).map fun found => (.sequence found.1, found.2)
    | .openBrace :: more => (flowMembers? fuel more).map fun found => (.mapping found.1, found.2)
    | .blockSequence :: more =>
      if inBlock then (blockItems? fuel more).map fun found => (.sequence found.1, found.2)
      else none
    | .blockMapping :: more =>
      if inBlock then (blockMembers? fuel more).map fun found => (.mapping found.1, found.2)
      else none
    | .dash :: _ =>
      if ofMapping then (unmarkedItems? fuel tokens).map fun found => (.sequence found.1, found.2)
      else none
    | _ => none

/-- A node, which is absent before some tokens. -/
def optional? : (fuel : Nat) → (inBlock ofMapping : Bool) → (stops : List Token) → List Token →
    Option (Node × List Token)
  | 0, _, _, _, _ => none
  | fuel + 1, inBlock, ofMapping, stops, tokens =>
    if tokens.head?.any stops.contains then some (.absent, tokens)
    else node? fuel inBlock ofMapping tokens

/-- The value of a member, which is absent without its colon too. -/
def value? : (fuel : Nat) → (inBlock : Bool) → (stops : List Token) → List Token →
    Option (Node × List Token)
  | 0, _, _, _ => none
  | fuel + 1, inBlock, stops, tokens =>
    match tokens with
    | .value :: more => optional? fuel inBlock inBlock stops more
    | _ => some (.absent, tokens)

def blockItems? : (fuel : Nat) → List Token → Option (List Node × List Token)
  | 0, _ => none
  | fuel + 1, tokens =>
    match tokens with
    | .dash :: more => do
      let item ← optional? fuel true false [.dash, .blockEnd] more
      let others ← blockItems? fuel item.2
      return (item.1 :: others.1, others.2)
    | .blockEnd :: more => some ([], more)
    | _ => none

/-- The items of a block sequence in the column of the mapping around it. -/
def unmarkedItems? : (fuel : Nat) → List Token → Option (List Node × List Token)
  | 0, _ => none
  | fuel + 1, tokens =>
    match tokens with
    | .dash :: more => do
      let item ← optional? fuel true false [.dash, .key, .value, .blockEnd] more
      let others ← unmarkedItems? fuel item.2
      return (item.1 :: others.1, others.2)
    | _ => some ([], tokens)

def blockMembers? : (fuel : Nat) → List Token → Option (List (Node × Node) × List Token)
  | 0, _ => none
  | fuel + 1, tokens =>
    match tokens with
    | .key :: more => do
      let key ← optional? fuel true true [.key, .value, .blockEnd] more
      let value ← value? fuel true [.key, .value, .blockEnd] key.2
      let others ← blockMembers? fuel value.2
      return ((key.1, value.1) :: others.1, others.2)
    | .blockEnd :: more => some ([], more)
    | _ => none

/-- The items of a flow sequence, after its bracket or a comma. An item with a colon is a mapping
of one member. -/
def flowItems? : (fuel : Nat) → List Token → Option (List Node × List Token)
  | 0, _ => none
  | fuel + 1, tokens =>
    match tokens with
    | .closeBracket :: more => some ([], more)
    | _ => do
      let item ←
        match tokens with
        | .key :: more => flowPair? fuel more
        | _ => node? fuel false false tokens
      match item.2 with
      | .comma :: more => (flowItems? fuel more).map fun found => (item.1 :: found.1, found.2)
      | .closeBracket :: more => some ([item.1], more)
      | _ => none

/-- An item of a flow sequence that is a member, after its mark. The token in place of an absent
key is passed over. -/
def flowPair? : (fuel : Nat) → List Token → Option (Node × List Token)
  | 0, _ => none
  | fuel + 1, tokens => do
    let key ←
      match tokens with
      | .value :: more => some (.absent, more)
      | .comma :: more => some (.absent, more)
      | .closeBracket :: more => some (.absent, more)
      | _ => node? fuel false false tokens
    let value ← value? fuel false [.comma, .closeBracket] key.2
    return (.mapping [(key.1, value.1)], value.2)

/-- The members of a flow mapping, after its brace or a comma. A member without a colon has a key
alone. -/
def flowMembers? : (fuel : Nat) → List Token → Option (List (Node × Node) × List Token)
  | 0, _ => none
  | fuel + 1, tokens =>
    match tokens with
    | .closeBrace :: more => some ([], more)
    | _ => do
      let member ←
        match tokens with
        | .key :: more => do
          let key ← optional? fuel false false [.value, .comma, .closeBrace] more
          let value ← value? fuel false [.comma, .closeBrace] key.2
          some ((key.1, value.1), value.2)
        | _ => (node? fuel false false tokens).map fun key => ((key.1, .absent), key.2)
      match member.2 with
      | .comma :: more => (flowMembers? fuel more).map fun found => (member.1 :: found.1, found.2)
      | .closeBrace :: more => some ([member.1], more)
      | _ => none

end

/-- The document of some tokens. There is at most one, and it may stand after a mark. -/
def document? (tokens : List Token) : Option Node :=
  let fuel := 4 * tokens.length + 4
  let found : Option (Node × List Token) :=
    match tokens with
    | [] => some (.nothing, [])
    | [.documentStart] => some (.absent, [])
    | .documentStart :: more => optional? fuel true false [.documentStart, .documentEnd] more
    | _ => node? fuel true false tokens
  (found.filter fun rest => rest.2.all fun token => token == .documentEnd).map Prod.fst

def parse? (text : String) : Option Node :=
  (tokens? text).bind document?

end Yaml

end Interaction
