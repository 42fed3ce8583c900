import Interaction.Address
import Interaction.Placeholder
import Interaction.Table
import Interaction.Template.View

/-!
# Keyed documents

The document format 1.0.0. Arguments are found by their labels, dependencies by the placeholder of
their import, and pins stand beside the addresses without their trees. Only titles and
descriptions are kept of the messages. An output and network pins have no place in it.
-/

namespace Interaction

namespace Keyed

/-- The title and the description by language. A text that is there may still have no
phrases. -/
structure Texts where
  title : Option (Table String) := none
  description : Option (Table String) := none
  deriving DecidableEq, Repr

/-- A contract on one network. An empty pin stands for none. -/
structure Deployment where
  address : String
  qualified : String := ""
  contract : String := ""
  pin : String := ""
  height : Nat := 0
  deriving DecidableEq, Repr

/-- An argument. An empty balance stands for none. -/
structure Slot where
  index : Nat
  type : String
  messages : Texts := {}
  balance : String := ""
  deriving DecidableEq, Repr

structure Contents where
  kind : String
  interface : String := ""
  messages : Texts := {}
  body : String
  /-- Deployments by placeholder, contract and network. -/
  dependencies : Table (Table (Table Deployment)) := ∅
  arguments : Table Slot := ∅
  deriving DecidableEq, Repr

structure Document where
  type : String
  version : String
  id : String := ""
  contents : Contents
  deriving DecidableEq, Repr

namespace Texts

/-- The phrases of a key, of which the last one of each language counts; none if there are no
phrases. -/
def collect (messages : List Message) (key : String) : Option (Table String) :=
  let found := (messages.filter fun m => m.key == key).flatMap Message.phrases
  if found = [] then none else some (Table.ofList (found.map fun t => (t.tag, t.text)))

/-- The title and the description among some messages. -/
def ofMessages (messages : List Message) : Texts :=
  ⟨collect messages "title", collect messages "description"⟩

def message (key : String) (text : Option (Table String)) : List Message :=
  match text with
  | none => []
  | some table => [⟨key, table.entries.map fun entry => ⟨entry.1, entry.2⟩⟩]

/-- The title and then the description. -/
def toMessages (texts : Texts) : List Message :=
  message "title" texts.title ++ message "description" texts.description

end Texts

def Deployment.ofPlacement (contract : String) (placement : Placement) : Deployment where
  address := placement.address
  qualified := Address.qualify placement.address contract
  contract := contract
  pin := (placement.pin.map PinRecord.pin).getD ""
  height := (placement.pin.map PinRecord.height).getD 0

def Deployment.toPlacement (network : String) (deployment : Deployment) : Placement where
  network := network
  address := deployment.address
  pin := if deployment.pin = "" then none else some ⟨deployment.height, deployment.pin, none⟩

def Slot.ofArgument (argument : Argument) : Slot where
  index := argument.index
  type := argument.type
  messages := .ofMessages argument.messages
  balance := argument.balance.getD ""

def Slot.toArgument (label : String) (slot : Slot) : Argument where
  label := label
  index := slot.index
  type := slot.type
  messages := slot.messages.toMessages
  balance := if slot.balance = "" then none else some slot.balance

/-- Adds a dependency under its placeholder. -/
def addDependency (known : Table (Table (Table Deployment))) (dependency : Dependency) :
    Table (Table (Table Deployment)) :=
  let networks := Table.ofList (dependency.placements.map fun placement =>
    (placement.network, Deployment.ofPlacement dependency.contract placement))
  known.update (placeholder dependency.contract) ∅ fun contracts =>
    contracts.insert dependency.contract networks

namespace Document

def ofDraft (draft : Draft) : Document where
  type := documentType
  version := Format.keyed.tag
  contents := {
    kind := (draft.kind.map Kind.name).getD ""
    interface := draft.interface
    messages := .ofMessages draft.messages
    body := draft.body
    dependencies := draft.dependencies.foldl addDependency ∅
    arguments := Table.ofList (draft.parameters.map fun argument =>
      (argument.label, Slot.ofArgument argument)) }

/-- The output of a script, which is not stored. -/
def anyOutput : Argument where
  label := "result"
  index := 0
  type := "AnyStruct"
  isOutput := true

/-- The parameters in the order of their indices, those of one index in the order of their
labels. -/
def parameters (document : Document) : List Argument :=
  (document.contents.arguments.entries.map fun entry => entry.2.toArgument entry.1).mergeSort
    fun a b => a.index ≤ b.index

/-- The dependencies in the order of their placeholders and names. -/
def dependencies (document : Document) : List Dependency :=
  document.contents.dependencies.values.flatMap fun contracts =>
    contracts.entries.map fun entry =>
      ⟨entry.1, entry.2.entries.map fun placed => placed.2.toPlacement placed.1⟩

def view (document : Document) : View :=
  let kind := Kind.ofName? document.contents.kind
  { format := .keyed
    id := document.id
    kind := kind
    interface := document.contents.interface
    messages := document.contents.messages.toMessages
    body := document.contents.body
    parameters := document.parameters
    output := if kind = some .script then some anyOutput else none
    dependencies := document.dependencies
    networkPins := [] }

end Document

end Keyed

end Interaction
