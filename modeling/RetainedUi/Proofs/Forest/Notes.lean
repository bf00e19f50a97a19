import RetainedUi.Forest.Layout
import RetainedUi.Proofs.Routing.Receipts

/-!
# Notes beside a forest

Layouts and drawings leave notes of what they find and of what they do. The notes are kept beside the state that
widgets share. Work on the forest looks at neither, so it comes to the same whether notes are kept or not.
-/

namespace RetainedUi.Grove

variable {W A L α : Type}

/-- A grove without its notes. -/
def plain (s : Grove W (A × L)) : Grove W A := { s with ambient := s.ambient.plain }

@[simp]
theorem forest_plain (s : Grove W (A × L)) : s.plain.forest = s.forest := rfl

theorem forgets_ask (question : Forest W → Except Halt α) :
    Pass.Forgets plain (ask question : Pass (Grove W (A × L)) α) (ask question) := by
  intro s
  change Pass.mapState plain (Pass.lift (question s.forest) s) = Pass.lift (question s.forest) s.plain
  cases question s.forest <;> rfl

theorem forgets_change (step : Forest W → Except Halt (Forest W)) :
    Pass.Forgets plain (change step : Pass (Grove W (A × L)) Unit) (change step) := by
  intro s
  unfold change
  rw [forest_plain]
  cases step s.forest <;> rfl

end RetainedUi.Grove
