import Interaction.Build.Dependencies
import Interaction.Build.Metadata
import Interaction.Template.Executable

/-!
# Building templates

A build goes from a source to a sealed template or fails, and a failed build leaves no template.
It reads the source, resolves and pins its imports, computes the network pins of the document that
has been laid out, and stores them and the id. A build that is over by then is a failed one.
-/

namespace Interaction

namespace Builder

def prepare (builder : Builder) (session : Session) (source : String) (earlier : Option Template) :
    Except Failure (List Import × Draft) := do
  session.check
  let program ← (Source.Program.parse source).mapError fun flaw => .malformed (.flaw flaw)
  match program.kind with
  | none => throw (.malformed .noEntry)
  | some kind =>
    let draft ← Build.draft builder.config.format source kind program (earlier.map Template.view)
    return (Import.distinct program.imports, draft)

/-- Lays a draft out and stores its network pins and its id. A keyed document has no place for
network pins, but computing them shows that every dependency is placed on every network. -/
def finish (builder : Builder) (session : Session) (draft : Draft) : Except Failure Template := do
  let template := Template.ofDraft draft
  let pins ← template.view.allNetworkPins builder.config.networks
  session.check
  return (template.setNetworkPins pins).sealed

/-- The building of a template from a source, event by event. -/
def course (builder : Builder) (conditions : Conditions) (now : Session) (source : String)
    (earlier : Option Template) : Course (Except Failure Template) :=
  match builder.prepare now source earlier with
  | .error failure => .ended (.error failure)
  | .ok (imports, draft) =>
    (builder.dependencies conditions now imports).andThen now fun now found =>
      match found with
      | .error failure => .ended (.error failure)
      | .ok dependencies =>
        .ended (builder.finish now { draft with dependencies := dependencies })

/-- Builds a template from a source. Messages of an earlier template stand in where the source
declares none. -/
def build (builder : Builder) (conditions : Conditions) (session : Session) (source : String)
    (earlier : Option Template) : Except Failure Template × Session :=
  (builder.course conditions session source earlier).run session

end Builder

end Interaction
