import Interaction.Source.Lexeme

/-!
# Imports

An import names one contract, either bare or at an explicit address. A declaration has one of
three forms, of which the one that names a file is resolved by name like the bare one.
-/

namespace Interaction

structure Import where
  name : String
  /-- The address the source spells out, if any. -/
  address : Option String := none
  deriving DecidableEq, Repr

namespace Import

/-- Whether the source spells out an address. -/
def isExplicit (i : Import) : Bool :=
  i.address.isSome

def bareText (name : String) : String :=
  "import \"" ++ name ++ "\""

def explicitText (name address : String) : String :=
  "import " ++ name ++ " from " ++ address

def text (i : Import) : String :=
  match i.address with
  | none => bareText i.name
  | some address => explicitText i.name address

/-- Keeps the first import of each name. -/
def distinct (imports : List Import) : List Import :=
  imports.foldl (fun kept i => if kept.any (·.name == i.name) then kept else kept ++ [i]) []

end Import

namespace Source

/-- An import declaration as it is written. -/
inductive Clause where
  | bare (name : String)
  | located (names : List String) (address : String)
  | filed (names : List String) (file : String)
  deriving DecidableEq, Repr

namespace Clause

def imports : Clause → List Import
  | bare name => [{ name := name }]
  | located names address => names.map fun name => { name := name, address := some address }
  | filed names _ => names.map fun name => { name := name }

open Source.Parser Lexeme

/-- The names of a declaration and where they come from. -/
def sourced : Parser Clause := do
  let names ← separated word
  skip
  keyword "from"
  skip
  located names <$> addressLiteral <|> filed names <$> stringLiteral

def parse : Parser Clause := do
  keyword "import"
  skip
  sourced <|> bare <$> stringLiteral

end Clause

end Source

end Interaction
