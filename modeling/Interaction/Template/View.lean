import Interaction.Kind
import Interaction.Template.Message
import Interaction.Template.Pin

/-!
# What a template says

A view holds what can be read off a template whichever format it is stored in, and a draft what a
template is made from before a format is chosen.
-/

namespace Interaction

/-- An input of an interaction, or its output. -/
structure Argument where
  label : String
  index : Nat
  type : String
  messages : List Message := []
  isOutput : Bool := false
  /-- The contract whose balance the argument spends. -/
  balance : Option String := none
  deriving DecidableEq, Repr

/-- Where a contract is deployed on one network. -/
structure Placement where
  network : String
  address : String
  pin : Option PinRecord := none
  deriving DecidableEq, Repr

/-- A contract an interaction imports, with its placements. -/
structure Dependency where
  contract : String
  placements : List Placement := []
  deriving DecidableEq, Repr

namespace Dependency

def on? (dependency : Dependency) (network : String) : Option Placement :=
  dependency.placements.find? fun placement => placement.network == network

end Dependency

/-- What can be read off a template. -/
structure View where
  format : Format
  id : String
  kind : Option Kind
  interface : String
  messages : List Message
  body : String
  /-- The inputs in the order of their indices. -/
  parameters : List Argument
  output : Option Argument
  dependencies : List Dependency
  networkPins : List NetworkPin
  deriving DecidableEq, Repr

namespace View

/-- Whether the interaction is known to leave all state alone. -/
def isReadOnly (view : View) : Bool :=
  view.kind == some .script

def isMutating (view : View) : Bool :=
  view.kind == some .transaction

end View

/-- What a template is made from. -/
structure Draft where
  format : Format := .listed
  kind : Option Kind := none
  interface : String := ""
  messages : List Message := []
  body : String := ""
  dependencies : List Dependency := []
  parameters : List Argument := []
  output : Option Argument := none
  deriving DecidableEq, Repr

/-- The type tag of every template document. -/
def documentType : String := "InteractionTemplate"

end Interaction
