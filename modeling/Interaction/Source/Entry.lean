import Interaction.Kind
import Interaction.Source.TypeText

/-!
# Entry points

A transaction is entered at its `transaction` declaration, a script at its `main` function. Both
declare the parameters that an interaction is run with.
-/

namespace Interaction

namespace Source

/-- A declared parameter. Its label is the name it has inside the body. -/
structure Parameter where
  label : String
  type : String
  title : Option String := none
  description : Option String := none
  deriving DecidableEq, Repr

structure Entry where
  kind : Kind
  parameters : List Parameter
  /-- What a script returns, if that is declared. -/
  returnType : Option String := none
  deriving DecidableEq, Repr

open Source.Parser Lexeme

def Parameter.parse : Parser Parameter := do
  let first ← word
  skip
  let second ← maybe word
  symbol ":"
  skip
  let type ← typeText
  return { label := second.getD first, type := type }

namespace Entry

def parseTransaction : Parser Entry := do
  keyword "transaction"
  let parameters ← maybe do
    skip
    enclosed "(" Parameter.parse ")"
  skip
  ahead '{'
  return { kind := .transaction, parameters := parameters.getD [] }

def parseMain : Parser Entry := do
  keyword "fun"
  skip
  keyword "main"
  skip
  let parameters ← enclosed "(" Parameter.parse ")"
  let returnType ← maybe do
    symbol ":"
    skip
    typeText
  return { kind := .script, parameters := parameters, returnType := returnType }

def parse : Parser Entry :=
  parseTransaction <|> parseMain

end Entry

end Source

end Interaction
