import Interaction.Text.Uppercase

/-!
# Placeholders

A template of the keyed format imports every contract from a placeholder, which stands for the
contract's address on whichever network the template is used.
-/

namespace Interaction

/-- The placeholder for the address of a contract, such as `0xFLOWTOKENADDRESS`. -/
def placeholder (contract : String) : String :=
  "0x" ++ Text.uppercase contract ++ "ADDRESS"

end Interaction
