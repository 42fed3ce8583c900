import Interaction.Source.Chunk
import Interaction.Source.Metadata

/-!
# What a source text declares

Reading a source text collects its declarations in order: any number of imports, at most one entry
point, at most one pragma, and the first metadata block. The first flaw met ends the reading. The
imports alone can always be read, since nothing about them can be wrong.
-/

namespace Interaction

namespace Source

/-- Everything a source text declares. -/
structure Program where
  declarations : List (Located Clause) := []
  entry : Option Entry := none
  pragma : Option Metadata := none
  /-- The first metadata block. -/
  block : Option Metadata := none
  deriving Repr

namespace Program

def imports (program : Program) : List Import :=
  program.declarations.flatMap fun found => found.value.imports

def kind (program : Program) : Option Kind :=
  program.entry.map Entry.kind

def parameters (program : Program) : List Parameter :=
  (program.entry.map Entry.parameters).getD []

def returnType (program : Program) : Option String :=
  program.entry.bind Entry.returnType

/-- Adds one item to what has been read. -/
def add (program : Program) (found : Located Item) : Except Flaw Program :=
  match found.value with
  | .imports clause =>
    .ok { program with declarations := program.declarations ++ [{ found with value := clause }] }
  | .entry entry =>
    if program.entry.isSome then .error ⟨found.line, .secondEntry⟩
    else .ok { program with entry := some entry }
  | .pragma fields =>
    if program.pragma.isSome then .error ⟨found.line, .secondPragma⟩
    else (pragmaMetadata found.line fields).map fun known => { program with pragma := some known }
  | .brokenPragma => .error ⟨found.line, .brokenPragma⟩
  | .block tags =>
    if program.block.isSome then .ok program
    else (blockMetadata found.line tags).map fun known => { program with block := some known }
  | .plain => .ok program

def parse (source : String) : Except Flaw Program :=
  (items source).foldlM add {}

end Program

end Source

end Interaction
