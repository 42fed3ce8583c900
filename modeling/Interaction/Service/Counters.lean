import Interaction.Kind

/-!
# Counters

A service counts its builds by outcome and its verifications by result. The counts are reported as
text, in families of samples that come in the order of their names. A sample is reported once there
is something to count, and a family once it has a sample. Every build is timed as well, but times
are not kept, so of the family of build times only the count is reported.
-/

namespace Interaction

namespace Service

structure Counters where
  built : Nat := 0
  failed : Nat := 0
  valid : Nat := 0
  invalid : Nat := 0
  deriving DecidableEq, Repr

namespace Counters

/-- Counts a build that came to a template or not. -/
def countBuild (counters : Counters) (isBuilt : Bool) : Counters :=
  if isBuilt then { counters with built := counters.built + 1 }
  else { counters with failed := counters.failed + 1 }

/-- Counts a verification of a template that is valid or not. -/
def countVerification (counters : Counters) (isValid : Bool) : Counters :=
  if isValid then { counters with valid := counters.valid + 1 }
  else { counters with invalid := counters.invalid + 1 }

/-- A count under the value of its family's label. -/
structure Sample where
  value : String
  count : Nat

/-- Samples of one kind. -/
structure Family where
  name : String
  help : String
  type : String
  /-- What follows the name in a sample. -/
  ending : String
  label : String
  samples : List Sample

def Family.line (family : Family) (sample : Sample) : String :=
  family.name ++ family.ending ++ "\x7b" ++ family.label ++ "=\"" ++ sample.value ++ "\"\x7d " ++
    toString sample.count

/-- The lines of a family; a family in which nothing has been counted has none. -/
def Family.lines (family : Family) : List String :=
  match family.samples.filter fun sample => 0 < sample.count with
  | [] => []
  | samples =>
    s!"# HELP {family.name} {family.help}" :: s!"# TYPE {family.name} {family.type}" ::
      samples.map family.line

/-- The families of a service whose templates have a format. -/
def families (format : Format) (counters : Counters) : List Family := [
  { name := "flix_build_duration_seconds"
    help := "Template build latency"
    type := "histogram"
    ending := "_count"
    label := "format"
    samples := [⟨format.tag, counters.built + counters.failed⟩] },
  { name := "flix_builds_total"
    help := "Template builds by outcome"
    type := "counter"
    ending := ""
    label := "outcome"
    samples := [⟨"error", counters.failed⟩, ⟨"ok", counters.built⟩] },
  { name := "flix_verifications_total"
    help := "Template verifications by result"
    type := "counter"
    ending := ""
    label := "result"
    samples := [⟨"invalid", counters.invalid⟩, ⟨"valid", counters.valid⟩] }]

def lines (format : Format) (counters : Counters) : List String :=
  (counters.families format).flatMap Family.lines

def report (format : Format) (counters : Counters) : String :=
  String.join ((counters.lines format).map fun line => line ++ "\n")

end Counters

end Service

end Interaction
