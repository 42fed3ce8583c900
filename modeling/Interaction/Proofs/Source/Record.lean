import Interaction.Proofs.Source.Rescan
import Interaction.Proofs.Traversal

/-!
# Substitution that keeps a record

Imports may be looked up by a rule that notes what it meets. If what it answers does not depend on
its notes, then the text is that of plain substitution, and the notes are those on all imports of
the text, one after another in their order.
-/

namespace Interaction

namespace Source

variable {σ : Type} {rule : Import → StateM σ (Option String)} {replacement : Import → Option String}
  {note : σ → Import → σ} (hrule : ∀ i s, (rule i).run s = (replacement i, note s i))

include hrule

theorem Clause.run_replaceM (clause : Clause) (s : σ) :
    (clause.replaceM rule).run s =
      (clause.replaced? replacement, clause.imports.foldl note s) := by
  have hstep : ∀ i s, (do
      let text ← rule i
      return (i, text) : StateM σ (Import × Option String)).run s =
        ((i, replacement i), note s i) := by
    intro i s
    rw [StateT.run_bind, hrule]
    rfl
  rw [replaceM, StateT.run_bind, run_mapM hstep]
  rfl

theorem Chunk.run_substituteM (chunk : Chunk) (s : σ) :
    (chunk.substituteM rule).run s =
      (chunk.substituted replacement, chunk.imports.foldl note s) := by
  rw [substituteM, substituted, imports]
  cases chunk.item with
  | imports clause =>
      dsimp only
      rw [StateT.run_bind, Clause.run_replaceM hrule]
      rfl
  | _ => rfl

/-- The text is that of plain substitution, and the notes are those on the imports in their
order. -/
theorem run_substituteImportsM (source : String) (s : σ) :
    (substituteImportsM rule source).run s =
      (substituteImports replacement source, (importsOf source).foldl note s) := by
  rw [substituteImportsM, StateT.run_bind, run_mapM (Chunk.run_substituteM hrule),
    substituteImports_eq, importsOf_eq, List.foldl_flatMap]
  rfl

end Source

end Interaction
