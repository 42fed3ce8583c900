import Interaction.Failure
import Interaction.Json.Problem
import Interaction.Template.Basic
import Interaction.Text.Utf8

/-!
# Reading template documents

A document is read twice: once for its version tag alone, and then as a document of the format
that the tag names. The first reading skips everything but the tag, so it accepts texts that the
second does not.
-/

namespace Interaction

open Json.Decoder

namespace Keyed

def Texts.decodePhrases : Json.Decoder (Table String) :=
  record "Translations"
    [defaulted "i18n" (orDefault ∅ (table string)) fun entries _ => entries] ∅

def Texts.decode : Json.Decoder Texts :=
  record "Messages"
    [defaulted "title" (nullable Texts.decodePhrases) fun v r => { r with title := v },
      defaulted "description" (nullable Texts.decodePhrases)
        fun v r => { r with description := v }] {}

def Deployment.decode : Json.Decoder Deployment :=
  record "Network"
    [required "address" string fun v r => { r with address := v },
      defaulted "fq_address" string fun v r => { r with qualified := v },
      defaulted "contract" string fun v r => { r with contract := v },
      defaulted "pin" string fun v r => { r with pin := v },
      defaulted "pin_block_height" (natural "u64") fun v r => { r with height := v }]
    { address := "" }

def Slot.decode : Json.Decoder Slot :=
  record "Argument"
    [required "index" (natural "usize") fun v r => { r with index := v },
      required "type" string fun v r => { r with type := v },
      defaulted "messages" Texts.decode fun v r => { r with messages := v },
      defaulted "balance" string fun v r => { r with balance := v }]
    { index := 0, type := "" }

def Contents.decode : Json.Decoder Contents :=
  record "Data"
    [required "type" string fun v r => { r with kind := v },
      defaulted "interface" string fun v r => { r with interface := v },
      defaulted "messages" Texts.decode fun v r => { r with messages := v },
      required "cadence" string fun v r => { r with body := v },
      defaulted "dependencies" (orDefault ∅ (table (table (table Deployment.decode))))
        fun v r => { r with dependencies := v },
      defaulted "arguments" (orDefault ∅ (table Slot.decode)) fun v r => { r with arguments := v }]
    { kind := "", body := "" }

def Document.decode : Json.Decoder Document :=
  record "FlowInteractionTemplate"
    [required "f_type" string fun v r => { r with type := v },
      required "f_version" string fun v r => { r with version := v },
      defaulted "id" string fun v r => { r with id := v },
      required "data" Contents.decode fun v r => { r with contents := v }]
    { type := "", version := "", contents := { kind := "", body := "" } }

end Keyed

def Phrase.decode : Json.Decoder Phrase :=
  record "I18n"
    [required "tag" string fun v r => { r with tag := v },
      required "translation" string fun v r => { r with text := v }]
    ⟨"", ""⟩

def Message.decode : Json.Decoder Message :=
  record "Message"
    [required "key" string fun v r => { r with key := v },
      defaulted "i18n" (orDefault [] (list Phrase.decode))
        fun v r => { r with phrases := v }]
    { key := "" }

def NetworkPin.decode : Json.Decoder NetworkPin :=
  record "NetworkPin"
    [required "network" string fun v r => { r with network := v },
      required "pin_self" string fun v r => { r with digest := v }]
    ⟨"", ""⟩

/-- A pin tree of at most so many levels. -/
def PinTree.decodeWithin : (levels : Nat) → Json.Decoder PinTree
  | 0 => fun _ _ => .error .unreadable
  | levels + 1 =>
    record "DependencyPin"
      [required "pin" string fun v r => { r with pin := v },
        required "pin_self" string fun v r => { r with own := v },
        required "pin_contract_name" string fun v r => { r with name := v },
        required "pin_contract_address" string fun v r => { r with address := v },
        defaulted "imports" (orDefault [] (list (PinTree.decodeWithin levels)))
          fun v r => { r with imports := v }]
      ⟨"", "", "", "", []⟩

/-- A pin tree. Each of its levels enters an object, so the depth bounds the levels. -/
def PinTree.decode : Json.Decoder PinTree := fun depth o =>
  PinTree.decodeWithin (depth + 1) depth o

namespace Listed

def Deployment.decode : Json.Decoder Deployment :=
  record "Network"
    [required "network" string fun v r => { r with network := v },
      required "address" string fun v r => { r with address := v },
      defaulted "dependency_pin_block_height" (natural "u64") fun v r => { r with height := v },
      defaulted "dependency_pin" (nullable PinTree.decode) fun v r => { r with pin := v }]
    { network := "", address := "" }

def Contract.decode : Json.Decoder Contract :=
  record "Contract"
    [required "contract" string fun v r => { r with contract := v },
      defaulted "networks" (orDefault [] (list Deployment.decode))
        fun v r => { r with networks := v }]
    { contract := "" }

def decodeGroup : Json.Decoder (List Contract) :=
  record "Dependency"
    [defaulted "contracts" (orDefault [] (list Contract.decode)) fun v _ => v] []

def Slot.decode : Json.Decoder Slot :=
  record "Parameter"
    [required "label" string fun v r => { r with label := v },
      defaulted "index" (natural "usize") fun v r => { r with index := v },
      required "type" string fun v r => { r with type := v },
      defaulted "messages" (orDefault [] (list Message.decode)) fun v r => { r with messages := v }]
    { label := "", type := "" }

def Code.decode : Json.Decoder Code :=
  record "Cadence"
    [required "body" string fun v r => { r with body := v },
      defaulted "network_pins" (orDefault [] (list NetworkPin.decode))
        fun v r => { r with networkPins := v }]
    { body := "" }

def Contents.decode : Json.Decoder Contents :=
  record "Data"
    [required "type" string fun v r => { r with kind := v },
      defaulted "interface" string fun v r => { r with interface := v },
      defaulted "messages" (orDefault [] (list Message.decode)) fun v r => { r with messages := v },
      required "cadence" Code.decode fun v r => { r with code := v },
      defaulted "dependencies" (orDefault [] (list decodeGroup))
        fun v r => { r with dependencies := v },
      defaulted "parameters" (orDefault [] (list Slot.decode))
        fun v r => { r with parameters := v },
      defaulted "output" (nullable Slot.decode) fun v r => { r with output := v }]
    { kind := "", code := { body := "" } }

def Document.decode : Json.Decoder Document :=
  record "InteractionTemplate"
    [required "f_type" string fun v r => { r with type := v },
      required "f_version" string fun v r => { r with version := v },
      defaulted "id" string fun v r => { r with id := v },
      required "data" Contents.decode fun v r => { r with contents := v }]
    { type := "", version := "", contents := { kind := "", code := { body := "" } } }

end Listed

namespace Template

/-- Why a text is no template document. -/
inductive Unreadable where
  /-- There is no version tag, or it is empty. -/
  | missingVersion
  | unsupportedVersion (tag : String)
  /-- The text is not what its format requires; before the format is known there is none. -/
  | malformed (format : Option Format) (problem : Json.Problem)
  deriving DecidableEq, Repr

def Unreadable.message : Unreadable → String
  | missingVersion => "template has no f_version tag"
  | unsupportedVersion tag => s!"unsupported template version: {tag}"
  | malformed format problem =>
    let name := (format.map Format.tag).getD "unknown"
    s!"malformed {name} template: {problem.message}"

/-- The failure of whoever needs the template. -/
def Unreadable.toFailure : Unreadable → Failure
  | missingVersion => .unsupportedVersion ""
  | unsupportedVersion tag => .unsupportedVersion tag
  | other => .schema other.message

/-- The version tag of a document, and nothing else of it. -/
def decodeVersion : Json.Decoder (Option String) :=
  record "VersionTag" [defaulted "f_version" (nullable string) fun v _ => v] none

/-- The format that a document's version tag names. -/
def detectVersion (input : List Json.Symbol) : Except Unreadable Format := do
  let tag ← (run decodeVersion input).mapError (.malformed none)
  match tag with
  | none => throw .missingVersion
  | some "" => throw .missingVersion
  | some tag =>
    match Format.ofTag? tag with
    | some format => return format
    | none => throw (.unsupportedVersion tag)

def parseAs (format : Format) (input : List Json.Symbol) : Except Unreadable Template :=
  Except.mapError (.malformed (some format)) <|
    match format with
    | .keyed => (run Keyed.Document.decode input).map keyed
    | .listed => (run Listed.Document.decode input).map listed

/-- A document of whichever format its version tag names. -/
def parse (input : List Json.Symbol) : Except Unreadable Template := do
  let format ← detectVersion input
  parseAs format input

def parseBytes (bytes : List UInt8) : Except Unreadable Template :=
  parse (Utf8.symbols bytes)

def parseText (text : String) : Except Unreadable Template :=
  parse (text.toList.map some)

end Template

end Interaction
