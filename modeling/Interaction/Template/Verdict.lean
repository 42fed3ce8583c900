import Interaction.Template.Executable

/-!
# Verdicts on templates

Whoever holds a template can check that its id belongs to its contents and that each of its network
pins belongs to the code that it stands for. The verdict lists every stored pin in order; a pin
whose code cannot be made is a failure.
-/

namespace Interaction

structure Verdict where
  id : String
  isIdValid : Bool
  /-- The networks of the stored pins, and whether each pin is the right one. -/
  pins : List (String × Bool)
  deriving DecidableEq, Repr

/-- Whether everything that was checked is right. -/
def Verdict.isValid (verdict : Verdict) : Bool :=
  verdict.isIdValid && verdict.pins.all Prod.snd

namespace Template

/-- Checks a network pin of a template. -/
def checkPin (t : Template) (pin : NetworkPin) : Except Failure (String × Bool) :=
  (t.view.verifyNetworkPin pin).map fun isValid => (pin.network, isValid)

def verdict (t : Template) : Except Failure Verdict :=
  (t.networkPins.mapM t.checkPin).map fun pins => ⟨t.id, t.verifyId, pins⟩

end Template

end Interaction
