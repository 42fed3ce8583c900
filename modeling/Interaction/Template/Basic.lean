import Interaction.Template.Keyed
import Interaction.Template.Listed

/-!
# Templates

A template is a document of either format. Its id and its network pins are the parts that are set
after it has been laid out.
-/

namespace Interaction

inductive Template where
  | keyed (document : Keyed.Document)
  | listed (document : Listed.Document)
  deriving DecidableEq, Repr

namespace Template

/-- What a template says. -/
def view : Template → View
  | keyed document => document.view
  | listed document => document.view

/-- The format a template is stored in. -/
def format : Template → Format
  | keyed _ => .keyed
  | listed _ => .listed

def id : Template → String
  | keyed document => document.id
  | listed document => document.id

/-- The version tag that is stored in the document. -/
def storedVersion : Template → String
  | keyed document => document.version
  | listed document => document.version

/-- The stored network pins; a keyed document has none. -/
def networkPins : Template → List NetworkPin
  | keyed _ => []
  | listed document => document.contents.code.networkPins

def setId (id : String) : Template → Template
  | keyed document => keyed { document with id := id }
  | listed document => listed { document with id := id }

/-- Stores network pins in the order of their networks. A keyed document has no place for them and
stays as it is. -/
def setNetworkPins (pins : List NetworkPin) : Template → Template
  | keyed document => keyed document
  | listed document =>
    listed { document with
      contents := { document.contents with
        code := { document.contents.code with networkPins := NetworkPin.sort pins } } }

def ofDraft (draft : Draft) : Template :=
  match draft.format with
  | .keyed => keyed (.ofDraft draft)
  | .listed => listed (.ofDraft draft)

@[simp] theorem view_format (t : Template) : t.view.format = t.format := by
  cases t <;> rfl

@[simp] theorem view_id (t : Template) : t.view.id = t.id := by
  cases t <;> rfl

@[simp] theorem view_networkPins (t : Template) : t.view.networkPins = t.networkPins := by
  cases t <;> rfl

@[simp] theorem setId_setId (t : Template) (a b : String) : (t.setId a).setId b = t.setId b := by
  cases t <;> rfl

@[simp] theorem setId_id (t : Template) (a : String) : (t.setId a).id = a := by
  cases t <;> rfl

end Template

end Interaction
