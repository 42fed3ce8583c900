import Interaction.Json.Printer
import Interaction.Template.Basic

/-!
# Writing template documents

A document is a JSON object with its members in a fixed order. A text, a pin or an output that is
absent is left out; everything else is written, also where it is empty.
-/

namespace Interaction

open Json (nat table optional)

namespace Keyed

def Texts.phrases (texts : Table String) : Json :=
  .object [("i18n", table Json.string texts.entries)]

def Texts.toJson (texts : Texts) : Json :=
  .object (optional "title" (texts.title.map Texts.phrases) ++
    optional "description" (texts.description.map Texts.phrases))

def Deployment.toJson (d : Deployment) : Json :=
  .object [("address", .string d.address), ("fq_address", .string d.qualified),
    ("contract", .string d.contract), ("pin", .string d.pin), ("pin_block_height", nat d.height)]

def Slot.toJson (slot : Slot) : Json :=
  .object [("index", nat slot.index), ("type", .string slot.type),
    ("messages", slot.messages.toJson), ("balance", .string slot.balance)]

def Contents.toJson (c : Contents) : Json :=
  .object [("type", .string c.kind), ("interface", .string c.interface),
    ("messages", c.messages.toJson), ("cadence", .string c.body),
    ("dependencies", table (fun contracts => table (fun networks =>
      table Deployment.toJson networks.entries) contracts.entries) c.dependencies.entries),
    ("arguments", table Slot.toJson c.arguments.entries)]

def Document.toJson (d : Document) : Json :=
  .object [("f_type", .string d.type), ("f_version", .string d.version), ("id", .string d.id),
    ("data", d.contents.toJson)]

end Keyed

def Phrase.toJson (p : Phrase) : Json :=
  .object [("tag", .string p.tag), ("translation", .string p.text)]

def Message.toJson (m : Message) : Json :=
  .object [("key", .string m.key), ("i18n", .array (m.phrases.map Phrase.toJson))]

def NetworkPin.toJson (p : NetworkPin) : Json :=
  .object [("network", .string p.network), ("pin_self", .string p.digest)]

mutual

def PinTree.toJson : PinTree → Json
  | ⟨pin, own, name, address, imports⟩ =>
    .object [("pin", .string pin), ("pin_self", .string own), ("pin_contract_name", .string name),
      ("pin_contract_address", .string address), ("imports", .array (PinTree.toJsons imports))]

def PinTree.toJsons : List PinTree → List Json
  | [] => []
  | tree :: more => tree.toJson :: PinTree.toJsons more

end

namespace Listed

/-- A deployment, with its pin only if it is pinned. -/
def Deployment.toJson (d : Deployment) : Json :=
  .object ([("network", .string d.network), ("address", .string d.address),
    ("dependency_pin_block_height", nat d.height)] ++
    optional "dependency_pin" (d.pin.map PinTree.toJson))

def Contract.toJson (c : Contract) : Json :=
  .object [("contract", .string c.contract),
    ("networks", .array (c.networks.map Deployment.toJson))]

def groupToJson (contracts : List Contract) : Json :=
  .object [("contracts", .array (contracts.map Contract.toJson))]

def Slot.toJson (slot : Slot) : Json :=
  .object [("label", .string slot.label), ("index", nat slot.index), ("type", .string slot.type),
    ("messages", .array (slot.messages.map Message.toJson))]

def Code.toJson (c : Code) : Json :=
  .object [("body", .string c.body), ("network_pins", .array (c.networkPins.map NetworkPin.toJson))]

/-- The contents of a document, with the output only if there is one. -/
def Contents.toJson (c : Contents) : Json :=
  .object ([("type", .string c.kind), ("interface", .string c.interface),
    ("messages", .array (c.messages.map Message.toJson)), ("cadence", c.code.toJson),
    ("dependencies", .array (c.dependencies.map groupToJson)),
    ("parameters", .array (c.parameters.map Slot.toJson))] ++
    optional "output" (c.output.map Slot.toJson))

def Document.toJson (d : Document) : Json :=
  .object [("f_type", .string d.type), ("f_version", .string d.version), ("id", .string d.id),
    ("data", d.contents.toJson)]

end Listed

namespace Template

def toJson : Template → Json
  | keyed document => document.toJson
  | listed document => document.toJson

def compactText (t : Template) : String :=
  t.toJson.compress

/-- The document with one member to a line, indented by four spaces. -/
def prettyText (t : Template) : String :=
  t.toJson.render (.indented 4)

end Template

end Interaction
