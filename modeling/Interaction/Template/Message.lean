import Interaction.Text.Blank

/-!
# Localised messages

A message is a key with phrases, each under a language tag. Looking up a key prefers American
English and otherwise takes the last phrase there is.
-/

namespace Interaction

/-- A text in one language. -/
structure Phrase where
  tag : String
  text : String
  deriving DecidableEq, Repr

structure Message where
  key : String
  phrases : List Phrase := []
  deriving DecidableEq, Repr

namespace Message

/-- The language that is preferred where there is a choice. -/
def defaultLanguage : String := "en-US"

def single (key tag text : String) : Message :=
  ⟨key, [⟨tag, text⟩]⟩

/-- The text of a key, or the placeholder if there is none, without blanks at its ends. -/
def lookup (messages : List Message) (key placeholder : String) : String :=
  let found := (messages.filter fun m => m.key == key).flatMap Message.phrases
  let preferred := found.find? fun t => t.tag == defaultLanguage
  let chosen := preferred.orElse fun _ => found.getLast?
  Text.trim ((chosen.map Phrase.text).getD placeholder)

def title (messages : List Message) (placeholder : String) : String :=
  lookup messages "title" placeholder

def description (messages : List Message) (placeholder : String) : String :=
  lookup messages "description" placeholder

end Message

end Interaction
