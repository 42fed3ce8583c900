import Interaction.Source.Block
import Interaction.Source.Flaw
import Interaction.Source.Pragma
import Interaction.Text.Blank

/-!
# Declared metadata

The texts a source declares about itself: titles and descriptions of the interaction and of its
parameters. They are written either as the fields of a pragma or as the tags of a metadata block.
Both are read as a fold over their parts: of two parts that set the same text the later one wins,
and a block's parameters come in the order in which their names are first mentioned.
-/

namespace Interaction

/-- What a source declares about one parameter. -/
structure ParameterMetadata where
  name : String
  title : Option String := none
  description : Option String := none
  /-- The contract whose balance the argument spends. -/
  balance : Option String := none
  deriving DecidableEq, Repr

/-- What a source declares about itself. -/
structure Metadata where
  version : Option String := none
  title : Option String := none
  description : Option String := none
  language : Option String := none
  parameters : List ParameterMetadata := []
  deriving DecidableEq, Repr

namespace Source

namespace Field

def name : Field → String
  | text _ name _ => name
  | parameters _ name _ => name

/-- The line of a field, counted from the start of its pragma. -/
def line : Field → Nat
  | text line _ _ => line
  | parameters line _ _ => line

/-- Adds a field to what is known of a pragma parameter. -/
def describeParameter (known : ParameterMetadata) (field : Field) :
    Except Cause ParameterMetadata :=
  match field with
  | text _ "name" value => .ok { known with name := value }
  | text _ "title" value => .ok { known with title := some value }
  | text _ "description" value => .ok { known with description := some value }
  | other => .error (.unexpectedParameterField other.name)

/-- A pragma parameter, which must have a name. -/
def parameterMetadata (fields : List Field) : Except Cause ParameterMetadata := do
  let described ← fields.foldlM describeParameter { name := "" }
  if described.name = "" then .error .namelessParameter else .ok described

/-- Adds a field to what is known from a pragma. -/
def describe (known : Metadata) (field : Field) : Except Cause Metadata :=
  match field with
  | text _ "version" value => .ok { known with version := some value }
  | text _ "title" value => .ok { known with title := some value }
  | text _ "description" value => .ok { known with description := some value }
  | text _ "language" value => .ok { known with language := some value }
  | parameters _ "parameters" values => do
    return { known with parameters := ← values.mapM parameterMetadata }
  | other => .error (.unexpectedField other.name)

end Field

/-- The metadata of the pragma that starts on `line`. -/
def pragmaMetadata (line : Nat) (fields : List Field) : Except Flaw Metadata :=
  fields.foldlM
    (fun known field =>
      (Field.describe known field).mapError fun cause => ⟨line + field.line, cause⟩) {}

namespace Tag

/-- The label and the text of a value `label: text`, the label a run of ASCII letters, digits and
underscores and the text not blank. -/
def labelled? (value : List Char) : Option (String × String) := do
  let halves ← Text.splitAtFirst? (· == ':') value
  let label := Text.trimChars halves.1
  let text := Text.trimChars halves.2
  if label ≠ [] ∧ text ≠ [] ∧ label.all isWordChar then
    some (String.ofList label, String.ofList text)
  else none

def updateParameter (name : String) (change : ParameterMetadata → ParameterMetadata) :
    List ParameterMetadata → List ParameterMetadata
  | [] => [change { name := name }]
  | p :: ps => if p.name = name then change p :: ps else p :: updateParameter name change ps

/-- Adds a message tag's value to what is known from a block. -/
def describeMessage? (known : Metadata) (value : List Char) : Option Metadata := do
  match ← labelled? value with
  | ("title", text) => some { known with title := some text }
  | ("description", text) => some { known with description := some text }
  | _ => none

/-- Adds a parameter tag's value to what is known from a block. -/
def describeParameter? (known : Metadata) (value : List Char) : Option Metadata := do
  let halves ← Text.splitAtFirst? Text.isBlank value
  let labelled ← labelled? (Text.trimChars halves.2)
  let update change :=
    { known with parameters := updateParameter labelled.1 change known.parameters }
  match String.ofList halves.1 with
  | "title" => some (update fun p => { p with title := some labelled.2 })
  | "description" => some (update fun p => { p with description := some labelled.2 })
  | _ => none

/-- Adds a balance tag's value to what is known from a block. -/
def describeBalance? (known : Metadata) (value : List Char) : Option Metadata := do
  let labelled ← labelled? value
  let change (p : ParameterMetadata) := { p with balance := some labelled.2 }
  some { known with parameters := updateParameter labelled.1 change known.parameters }

/-- Adds a tag to what is known from a block. A tag with any other key is passed over. -/
def describe? (known : Metadata) (key : String) (value : List Char) : Option Metadata :=
  match key with
  | "f_version" => some { known with version := some (String.ofList value) }
  | "lang" => some { known with language := some (String.ofList value) }
  | "message" => describeMessage? known value
  | "parameter" => describeParameter? known value
  | "balance" => describeBalance? known value
  | _ => some known

end Tag

/-- The metadata of the block that starts on `line`. -/
def blockMetadata (line : Nat) (tags : List Tag) : Except Flaw Metadata :=
  tags.foldlM
    (fun known tag =>
      let value := Text.trimChars tag.value.toList
      match Tag.describe? known tag.key value with
      | some more => .ok more
      | none => .error ⟨line + tag.line, .malformedTag tag.key (String.ofList value)⟩) {}

end Source

end Interaction
