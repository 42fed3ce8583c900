import Interaction.Proofs.Source.Word
import Interaction.Source.Metadata

/-!
# The texts that are declared of an interaction

Pragmas and metadata blocks declare the same four texts, each under a key of its own. Setting one
leaves the others as they are.
-/

namespace Interaction

namespace Source

/-- A text that is declared of an interaction. -/
inductive TextKey where
  | version
  | title
  | description
  | language
  deriving DecidableEq, Repr

namespace TextKey

def all : List TextKey :=
  [version, title, description, language]

def name : TextKey → String
  | version => "version"
  | title => "title"
  | description => "description"
  | language => "language"

def get (m : Metadata) : TextKey → Option String
  | version => m.version
  | title => m.title
  | description => m.description
  | language => m.language

def set (m : Metadata) (value : String) : TextKey → Metadata
  | version => { m with version := some value }
  | title => { m with title := some value }
  | description => { m with description := some value }
  | language => { m with language := some value }

theorem isWord (key : TextKey) : IsWord key.name.toList := by
  cases key <;> decide

theorem set_comm {key other : TextKey} (h : key ≠ other) (m : Metadata) (v w : String) :
    other.set (key.set m v) w = key.set (other.set m w) v := by
  cases key <;> cases other <;> first | rfl | contradiction

end TextKey

end Source

end Interaction
