import Interaction.Failure
import Interaction.Placeholder
import Interaction.Source.Program
import Interaction.Source.Substitution
import Interaction.Template.View

/-!
# From a source to a draft

A draft takes what the source declares and falls back on an earlier template where the source
declares nothing. A listed template reads the pragma of the source, whose parameters have to agree
with the source by position and name. A keyed one reads the metadata block, whose parameters are
found by name and may be any.

The body is stored with its imports in one form: by name alone in a listed template, and from
their placeholders in a keyed one.
-/

namespace Interaction

namespace Build

/-- What a source declares about itself for a format. -/
def declared (format : Format) (program : Source.Program) : Option Metadata :=
  match format with
  | .listed => program.pragma
  | .keyed => program.block

def language (metadata : Option Metadata) : String :=
  (metadata.bind Metadata.language).getD Message.defaultLanguage

/-- A title and a description as messages, each only if it is there. -/
def localized (language : String) (title description : Option String) : List Message :=
  (title.map (Message.single "title" language)).toList ++
    (description.map (Message.single "description" language)).toList

/-- The first of two lists of messages that holds any. -/
def messagesOr (preferred fallback : List Message) : List Message :=
  if preferred = [] then fallback else preferred

/-- What is declared about the parameter of a label at a position. -/
def describing (format : Format) (described : List ParameterMetadata) (index : Nat)
    (label : String) : Option ParameterMetadata :=
  match format with
  | .listed => described[index]?
  | .keyed => described.find? fun p => p.name == label

/-- The messages of a parameter: what is declared about it, else what the source gives it, else
those of the earlier template. -/
def argumentMessages (language : String) (parameter : Source.Parameter)
    (about : Option ParameterMetadata) (seed : Option Argument) : List Message :=
  let declared := (about.map fun p => localized language p.title p.description).getD []
  messagesOr declared
    (messagesOr (localized language parameter.title parameter.description)
      ((seed.map Argument.messages).getD []))

/-- The balance of a parameter, which only a keyed template keeps. -/
def argumentBalance (format : Format) (about : Option ParameterMetadata) (seed : Option Argument) :
    Option String :=
  match format with
  | .listed => none
  | .keyed => (about.bind ParameterMetadata.balance).orElse fun _ => seed.bind Argument.balance

/-- A parameter of the template, from the declared one, what is declared about it, and the
parameters of the earlier template. -/
def argument (format : Format) (described : List ParameterMetadata) (language : String)
    (earlier : List Argument) (index : Nat) (parameter : Source.Parameter) :
    Except Failure Argument :=
  let about := describing format described index parameter.label
  let seed := earlier.find? fun a => a.label == parameter.label
  match about.filter fun p => p.name != parameter.label with
  | some p => .error (.malformed (.misnamed index p.name parameter.label))
  | none =>
    .ok {
      label := parameter.label
      index := index
      type := parameter.type
      messages := argumentMessages language parameter about seed
      balance := argumentBalance format about seed }

/-- The parameters of the template, from the given position on. -/
def argumentsFrom (format : Format) (described : List ParameterMetadata) (language : String)
    (earlier : List Argument) (index : Nat) :
    List Source.Parameter → Except Failure (List Argument)
  | [] => .ok []
  | parameter :: more => do
    let first ← argument format described language earlier index parameter
    let rest ← argumentsFrom format described language earlier (index + 1) more
    return first :: rest

def arguments (format : Format) (parameters : List Source.Parameter) (metadata : Option Metadata)
    (language : String) (earlier : List Argument) : Except Failure (List Argument) :=
  let described := (metadata.map Metadata.parameters).getD []
  if format = .listed ∧ parameters.length < described.length then
    .error (.malformed (.tooManyDescribed described.length parameters.length))
  else argumentsFrom format described language earlier 0 parameters

/-- The output of a script whose return type is declared; only a listed template has one. -/
def output (format : Format) (kind : Kind) (returnType : Option String) : Option Argument :=
  match format, kind with
  | .listed, .script => returnType.map fun type =>
    { label := "result", index := 0, type := type, isOutput := true }
  | _, _ => none

/-- The body of a template: the source with its imports in the form of the format. -/
def body (format : Format) (source : String) : String :=
  match format with
  | .listed =>
    Source.substituteImports
      (fun i => if i.isExplicit then some (Import.bareText i.name) else none) source
  | .keyed =>
    Source.substituteImports
      (fun i => some (Import.explicitText i.name (placeholder i.name))) source

def draft (format : Format) (source : String) (kind : Kind) (program : Source.Program)
    (earlier : Option View) : Except Failure Draft := do
  let metadata := declared format program
  let language := language metadata
  let own := (metadata.map fun m => localized language m.title m.description).getD []
  let parameters ← arguments format program.parameters metadata language
    ((earlier.map View.parameters).getD [])
  return {
    format := format
    kind := some kind
    messages := messagesOr own ((earlier.map View.messages).getD [])
    body := body format source
    parameters := parameters
    output := output format kind program.returnType }

end Build

end Interaction
