import Interaction.Digest
import Interaction.Json.Printer
import Interaction.Template.Basic

/-!
# Canonical form and identity

The canonical form of a template is an array without any objects, so no order of keys can change
it:

    [version, kind, interface, messages, body, dependencies, parameters, network pins]

Messages are sorted by key and phrases by language, placements and network pins by network,
parameters by index with a stored output last. Dependencies keep their order. Of a pin only the
root counts, and an absent one is the empty text. The stored id and block heights are left out, so
the id, which is the digest of the canonical form, does not depend on them.
-/

namespace Interaction

namespace Canonical

/-- Messages by key, their phrases by language; equal ones keep their order. -/
def messages (ms : List Message) : Json :=
  .array <| (ms.mergeSort fun a b => a.key ≤ b.key).map fun m =>
    .array [.string m.key, .array <| (m.phrases.mergeSort fun a b => a.tag ≤ b.tag).map
      fun t => Json.strings [t.tag, t.text]]

/-- A parameter, with its balance only if it has one. -/
def argument (a : Argument) : Json :=
  .array <| [.string a.label, Json.nat a.index, .string a.type, messages a.messages,
    .bool a.isOutput] ++ (a.balance.map Json.string).toList

/-- A dependency with its placements by network. -/
def dependency (d : Dependency) : Json :=
  .array [.string d.contract, .array <|
    (d.placements.mergeSort fun a b => a.network ≤ b.network).map fun p =>
      Json.strings [p.network, p.address, (p.pin.map PinRecord.pin).getD ""]]

/-- The parameters, and the output where it is stored. -/
def arguments (view : View) : List Json :=
  view.parameters.map argument ++
    if view.format = .listed then (view.output.map argument).toList else []

/-- The canonical form of what a template says. -/
def value (view : View) : Json :=
  .array [.string view.format.tag, .string ((view.kind.map Kind.name).getD ""),
    .string view.interface, messages view.messages, .string view.body,
    .array (view.dependencies.map dependency), .array (arguments view),
    .array ((NetworkPin.sort view.networkPins).map fun p =>
      Json.strings [p.network, p.digest])]

end Canonical

namespace Template

/-- The canonical form as a text. -/
def canonicalText (t : Template) : String :=
  (Canonical.value t.view).compress

def computeId (t : Template) : String :=
  Digest.ofText t.canonicalText

/-- The template with the id that belongs to it. Storing it is the last change made to one. -/
def sealed (t : Template) : Template :=
  t.setId t.computeId

/-- Whether the stored id is the one that belongs to the template. -/
def verifyId (t : Template) : Bool :=
  t.computeId == t.id

end Template

end Interaction
