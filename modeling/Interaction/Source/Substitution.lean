import Interaction.Source.Chunk

/-!
# Substituting imports

`substituteImports` puts new texts in the place of import declarations and keeps everything else.
A declaration none of whose imports has a replacement is kept as it is written; otherwise it
becomes one line per import, and an import without a replacement is written out anew.

The imports are looked up one after another in the order of the text, and whoever looks them up may
keep a record of them: `substituteImportsM` substitutes in any monad.
-/

namespace Interaction

namespace Source

/-- The text that takes the place of a declaration, if it changes, from its imports and what has
been found for each of them. -/
def replacedLines? (found : List (Import × Option String)) : Option String :=
  if found.all fun entry => entry.2.isNone then none
  else some ("\n".intercalate (found.map fun entry => entry.2.getD entry.1.text))

section Monadic

variable {m : Type → Type} [Monad m]

def Clause.replaceM (replacement : Import → m (Option String)) (clause : Clause) :
    m (Option String) := do
  let found ← clause.imports.mapM fun i => do
    let text ← replacement i
    return (i, text)
  return replacedLines? found

def Chunk.substituteM (replacement : Import → m (Option String)) (chunk : Chunk) :
    m (List Char) :=
  match chunk.item with
  | .imports clause => do
    let text ← clause.replaceM replacement
    return (text.map String.toList).getD chunk.text
  | _ => return chunk.text

def substituteImportsM (replacement : Import → m (Option String)) (source : String) :
    m String := do
  let texts ← (chunks source.toList).mapM (Chunk.substituteM replacement)
  return String.ofList texts.flatten

end Monadic

/-- Substitution without a record. -/
def substituteImports (replacement : Import → Option String) (source : String) : String :=
  Id.run (substituteImportsM (fun i => pure (replacement i)) source)

end Source

end Interaction
