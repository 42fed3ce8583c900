/-!
# Stages of a build

A build passes through five stages in order and ends in the last.
-/

namespace Interaction

/-- How far a build has come. -/
inductive Stage where
  | empty
  | metadataFilled
  | dependenciesResolved
  | networkPinsComputed
  | identified
  deriving DecidableEq, Repr

namespace Stage

/-- All stages, in the order a build passes them. -/
def all : List Stage :=
  [empty, metadataFilled, dependenciesResolved, networkPinsComputed, identified]

def next? : Stage → Option Stage
  | empty => some metadataFilled
  | metadataFilled => some dependenciesResolved
  | dependenciesResolved => some networkPinsComputed
  | networkPinsComputed => some identified
  | identified => none

/-- Whether a build ends here. -/
def isTerminal (stage : Stage) : Bool :=
  stage == identified

def name : Stage → String
  | empty => "empty"
  | metadataFilled => "metadata_filled"
  | dependenciesResolved => "dependencies_resolved"
  | networkPinsComputed => "network_pins_computed"
  | identified => "identified"

theorem isTerminal_iff (stage : Stage) : stage.isTerminal ↔ stage.next? = none := by
  cases stage <;> decide

end Stage

end Interaction
