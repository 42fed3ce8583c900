import Interaction.Build.Metadata
import Interaction.Proofs.Source.Answers
import Interaction.Proofs.Traversal
import Mathlib

/-!
# The parameters of a draft

What a source declares about its parameters is attached to them in one of two ways. A pragma lists
them in the order of the source and may leave out the last ones: its names have to begin the labels
of the source. A metadata block names them in any order, and the first entry of a name counts. What
neither says is taken from the first parameter of the label in the earlier template: the messages if
no text is declared at all, and the balance, which a listed template does not keep, by itself.
-/

namespace Interaction

namespace Build

/-- Whether this is what is declared about the parameter of a label at a position. -/
def Describes (format : Format) (described : List ParameterMetadata) (index : Nat) (label : String)
    (about : ParameterMetadata) : Prop :=
  match format with
  | .listed => described[index]? = some about
  | .keyed => ∃ before after, described = before ++ about :: after ∧ about.name = label ∧
      ∀ other ∈ before, other.name ≠ label

/-- A parameter of a template with what belongs to a parameter of the source. -/
structure Attached (format : Format) (described : List ParameterMetadata) (language : String)
    (earlier : List Argument) (parameter : Source.Parameter) (position : Nat) (a : Argument) :
    Prop where
  label : a.label = parameter.label
  type : a.type = parameter.type
  index : a.index = position
  isInput : a.isOutput = false
  messages_declared : ∀ about, Describes format described position parameter.label about →
    about.title ≠ none ∨ about.description ≠ none →
      a.messages = localized language about.title about.description
  messages_earlier : (∀ about, Describes format described position parameter.label about →
      about.title = none ∧ about.description = none) →
    a.messages =
      ((earlier.find? fun e => e.label == parameter.label).map Argument.messages).getD []
  balance_listed : format = .listed → a.balance = none
  balance_declared : format = .keyed → ∀ about,
    Describes format described position parameter.label about → ∀ balance,
      about.balance = some balance → a.balance = some balance
  balance_earlier : format = .keyed → (∀ about,
      Describes format described position parameter.label about → about.balance = none) →
    a.balance = (earlier.find? fun e => e.label == parameter.label).bind Argument.balance

variable {format : Format} {described : List ParameterMetadata} {language : String}
  {earlier : List Argument} {parameter : Source.Parameter} {parameters : List Source.Parameter}
  {index : Nat} {a : Argument} {failure : Failure} {metadata : Option Metadata}

/-! ### One parameter -/

variable {source : String} {kind : Kind} {program : Source.Program} {view : Option View}

end Build

end Interaction
