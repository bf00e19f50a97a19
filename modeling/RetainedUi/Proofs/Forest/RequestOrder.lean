import RetainedUi.Proofs.Forest.Climbing
import RetainedUi.Proofs.Geometry.Union

/-!
# Requests to paint in either order

A view that is clean gets two requests. What is pending then is the rectangle around what shows of the two regions, so
the order of the requests does not matter as long as something shows of one of them. If nothing does, the pending region
is empty in either order, but it is where the first request was cut down to.
-/

namespace RetainedUi

/-- What shows of a region in the view that it is requested of. -/
def Node.clip {W : Type} (node : Node W) (region : Option Rect) : Rect :=
  (region.getD node.bounds).intersection node.bounds

theorem Node.sound_clip {W : Type} (node : Node W) (region : Option Rect)
    (h : (node.clip region).isEmpty = false) : (node.clip region).Sound :=
  Rect.sound_intersection rfl h

namespace Forest

variable {W : Type} {f : Forest W} {v : View} {node : Node W}

/-- A request and then another one. -/
def invalidateBoth (f : Forest W) (v : View) (first second : Option Rect) : Except Halt (Forest W) := do
  let f ← f.invalidate v first
  f.invalidate v second

theorem WellFormed.exists_invalidateBoth (hf : f.WellFormed) (hnode : f.node? v = some node)
    (hclean : node.invalidated = none) (first second : Option Rect) : ∃ g, f.invalidateBoth v first second = .ok g ∧
      g.pending? v = some ((node.clip first).union (node.clip second)) := by
  obtain ⟨mid, hmid⟩ := hf.exists_invalidate (contains_iff.mpr ⟨node, hnode⟩) first
  have halike : Alike Node.withoutRegion f mid := alike_of_invalidate hmid
  have hwell : mid.WellFormed := (halike.map Node.links).wellFormed hf
  obtain ⟨soiled, hsoiled, hframe⟩ := (halike.map Node.frame).exists_node? hnode
  obtain ⟨g, hg⟩ := hwell.exists_invalidate (contains_iff.mpr ⟨soiled, hsoiled⟩) second
  have hfirst : soiled.invalidated = some (node.clip first) := by
    rw [← pending?_of_node? hsoiled, hf.pending?_invalidate hnode hmid, hclean]
    rfl
  have hbounds : soiled.bounds = node.bounds := congrArg (Rect.withOrigin · .zero) hframe
  refine ⟨g, by simp only [invalidateBoth, hmid]; exact hg, ?_⟩
  rw [hwell.pending?_invalidate hsoiled hg, hfirst, hbounds]
  rfl

/-- Two requests to paint leave the same region pending in either order, as numbers are compared, exactly if something
shows of one of the two regions or the same empty rectangle is left of both. In any case both orders tell alike
whether there is something to paint. -/
theorem invalidate_either_order (hf : f.WellFormed) (hnode : f.node? v = some node) (hclean : node.invalidated = none)
    (first second : Option Rect) : ∃ g h,
      f.invalidateBoth v first second = .ok g ∧ f.invalidateBoth v second first = .ok h ∧
      g.pending? v = some ((node.clip first).union (node.clip second)) ∧
      h.pending? v = some ((node.clip second).union (node.clip first)) ∧
      (g.pending? v).map Rect.isEmpty = (h.pending? v).map Rect.isEmpty ∧
      ((g.pending? v == h.pending? v) = true ↔
        ¬ ((node.clip first).isEmpty = true ∧ (node.clip second).isEmpty = true) ∨
          (node.clip first == node.clip second) = true) := by
  obtain ⟨g, hg, hpending⟩ := hf.exists_invalidateBoth hnode hclean first second
  obtain ⟨h, hh, hpending'⟩ := hf.exists_invalidateBoth hnode hclean second first
  have hcomm := Rect.union_beq_comm_iff (node.sound_clip first) (node.sound_clip second)
  refine ⟨g, h, hg, hh, hpending, hpending', ?_, ?_⟩
  · rw [hpending, hpending', Option.map_some, Option.map_some, Option.some.injEq]
    by_cases hempty : (node.clip first).isEmpty = true ∧ (node.clip second).isEmpty = true
    · rw [Rect.union_of_isEmpty_right _ hempty.2, Rect.union_of_isEmpty_right _ hempty.1, hempty.1, hempty.2]
    · exact Rect.isEmpty_congr (hcomm.mpr (.inl hempty))
  · rw [hpending, hpending', Option.some_beq_some]
    exact hcomm

/-- A view that was painted as a whole. -/
def painted : Forest Unit := (empty.create (.ofSides 0 0 100 100)).2.cleaned [⟨1⟩]

theorem wellFormed_painted : painted.WellFormed :=
  (alike_cleaned _ _).wellFormed (reachable_wellFormed ((Reaches.refl empty).step (.create _ _)))

theorem exists_node_painted : ∃ node, painted.node? ⟨1⟩ = some node ∧ node.frame = .ofSides 0 0 100 100 ∧
    node.invalidated = none := by
  have hnode : (painted.node? ⟨1⟩).map (fun node ↦ (node.frame, node.invalidated)) =
      some (.ofSides 0 0 100 100, none) := by decide +kernel
  obtain ⟨node, hnode, hfields⟩ := Option.map_eq_some_iff.mp hnode
  exact ⟨node, hnode, congrArg Prod.fst hfields, congrArg Prod.snd hfields⟩

/-- Of one region the right half shows and of the other one the upper left corner. -/
theorem invalidate_either_order_sticking_out : ∃ g h,
    painted.invalidateBoth ⟨1⟩ (some (.ofSides (-20) 10 40 10)) (some (.ofSides 50 80 100 50)) = .ok g ∧
    painted.invalidateBoth ⟨1⟩ (some (.ofSides 50 80 100 50)) (some (.ofSides (-20) 10 40 10)) = .ok h ∧
    g.pending? ⟨1⟩ = some (.ofSides 0 10 100 90) ∧ (g.pending? ⟨1⟩ == h.pending? ⟨1⟩) = true := by
  obtain ⟨node, hnode, hframe, hclean⟩ := exists_node_painted
  obtain ⟨g, h, hg, hh, hpending, -, -, hsame⟩ := invalidate_either_order wellFormed_painted hnode hclean
    (some (.ofSides (-20) 10 40 10)) (some (.ofSides 50 80 100 50))
  simp only [Node.clip, Node.bounds, hframe] at hpending hsame
  refine ⟨g, h, hg, hh, hpending.trans (by decide +kernel), hsame.mpr (.inl (by decide +kernel))⟩

/-- Nothing shows of two regions at different places outside of a view. The empty rectangle that is pending tells which
of them was requested first. -/
theorem invalidate_order_outside : ∃ g h, painted.pending? ⟨1⟩ = none ∧
    painted.invalidateBoth ⟨1⟩ (some (.ofSides 200 200 10 10)) (some (.ofSides 300 300 10 10)) = .ok g ∧
    painted.invalidateBoth ⟨1⟩ (some (.ofSides 300 300 10 10)) (some (.ofSides 200 200 10 10)) = .ok h ∧
    g.pending? ⟨1⟩ = some (.ofSides 200 200 0 0) ∧ h.pending? ⟨1⟩ = some (.ofSides 300 300 0 0) ∧
    (g.pending? ⟨1⟩ == h.pending? ⟨1⟩) = false := by
  obtain ⟨node, hnode, hframe, hclean⟩ := exists_node_painted
  obtain ⟨g, hg, hfirst⟩ := wellFormed_painted.exists_invalidateBoth hnode hclean
    (some (.ofSides 200 200 10 10)) (some (.ofSides 300 300 10 10))
  obtain ⟨h, hh, hsecond⟩ := wellFormed_painted.exists_invalidateBoth hnode hclean
    (some (.ofSides 300 300 10 10)) (some (.ofSides 200 200 10 10))
  simp only [Node.clip, Node.bounds, hframe] at hfirst hsecond
  have hlow : g.pending? ⟨1⟩ = some (.ofSides 200 200 0 0) := hfirst.trans (by decide +kernel)
  have hhigh : h.pending? ⟨1⟩ = some (.ofSides 300 300 0 0) := hsecond.trans (by decide +kernel)
  refine ⟨g, h, by rw [pending?_of_node? hnode, hclean], hg, hh, hlow, hhigh, ?_⟩
  rw [hlow, hhigh]
  decide +kernel

end Forest

end RetainedUi
