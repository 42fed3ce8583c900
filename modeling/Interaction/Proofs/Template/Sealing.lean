import Interaction.Proofs.Template.NetworkPins

/-!
# Storing network pins and ids

What is stored in a document last, its network pins and its id, leaves the rest of it alone. The
canonical form does not see the id, so a sealed document carries the id that belongs to it.
-/

namespace Interaction

namespace Template

variable {t : Template}

@[simp]
theorem canonicalText_setId (t : Template) (a : String) :
    (t.setId a).canonicalText = t.canonicalText := by
  cases t <;> rfl

theorem verifyId_sealed (t : Template) : t.sealed.verifyId = true := by
  rw [verifyId, sealed, setId_id, computeId, canonicalText_setId, computeId, beq_self_eq_true]

@[simp]
theorem format_setId (t : Template) (a : String) : (t.setId a).format = t.format := by
  cases t <;> rfl

@[simp]
theorem format_setNetworkPins (t : Template) (pins : List NetworkPin) :
    (t.setNetworkPins pins).format = t.format := by
  cases t <;> rfl

@[simp]
theorem networkPins_setId (t : Template) (a : String) :
    (t.setId a).networkPins = t.networkPins := by
  cases t <;> rfl

@[simp]
theorem body_setId (t : Template) (a : String) : (t.setId a).view.body = t.view.body := by
  cases t <;> rfl

@[simp]
theorem body_setNetworkPins (t : Template) (pins : List NetworkPin) :
    (t.setNetworkPins pins).view.body = t.view.body := by
  cases t <;> rfl

@[simp]
theorem dependencies_setId (t : Template) (a : String) :
    (t.setId a).view.dependencies = t.view.dependencies := by
  cases t <;> rfl

@[simp]
theorem dependencies_setNetworkPins (t : Template) (pins : List NetworkPin) :
    (t.setNetworkPins pins).view.dependencies = t.view.dependencies := by
  cases t <;> rfl

/-- A listed document keeps the pins in order, a keyed one keeps none. -/
theorem networkPins_setNetworkPins (t : Template) (pins : List NetworkPin) :
    (t.setNetworkPins pins).networkPins =
      if t.format = .listed then NetworkPin.sort pins else [] := by
  cases t <;> rfl

@[simp]
theorem format_ofDraft (draft : Draft) : (ofDraft draft).format = draft.format := by
  cases h : draft.format <;> simp only [ofDraft, h] <;> rfl

end Template

end Interaction
