import Mathlib.Data.List.Infix
import RetainedUi.Proofs.Paint.Batching

/-!
# Saved pens

Pens are saved on a stack, each with a mask of the components that a restore brings back. A guard saves the
pen, leaves the painter to its user, and afterwards restores saved pens until the stack is as deep as it was.
The user may leave any number of pens on the stack, whose masks overlap with that of the guard and which were
saved when the pen had other values. All of them are restored before the guard's own pen is, so that one has the
last word on the components of its mask.

The guard's own pen must still be there. As long as the stack is never taken down to the depth at which the
guard found it, all that lies below has not been touched either.
-/

namespace RetainedUi

/-- The components that a mask selects are the same in two pens. -/
structure PenMask.Agree (mask : PenMask) (a b : Pen) : Prop where
  scale : mask.scale = true → a.scale = b.scale
  origin : mask.origin = true → a.origin = b.origin
  handle : mask.handle = true → a.handle = b.handle
  rotation : mask.rotation = true → a.rotation = b.rotation
  color : mask.color = true → a.color = b.color

namespace Painter

/-! ## Restoring -/

theorem saved_restore (p : Painter) (s : SavedPen) : (p.restore s).saved = p.saved := by
  unfold restore
  split <;> split <;> split <;> split <;> split <;> rfl

theorem saved_foldl_restore (p : Painter) (above : List SavedPen) : (above.foldl restore p).saved = p.saved := by
  induction above generalizing p with
  | nil => rfl
  | cons s above ih => rw [List.foldl_cons, ih, saved_restore]

/-- A restore takes the selected components from the saved pen, and leaves the others. -/
theorem pen_restore (p : Painter) (s : SavedPen) : (p.restore s).pen =
    { scale := if s.mask.scale then s.pen.scale else p.pen.scale
      origin := if s.mask.origin then s.pen.origin else p.pen.origin
      handle := if s.mask.handle then s.pen.handle else p.pen.handle
      rotation := if s.mask.rotation then s.pen.rotation else p.pen.rotation
      color := if s.mask.color then s.pen.color else p.pen.color } := by
  obtain ⟨⟨scale, origin, handle, rotation, color⟩, pen⟩ := s
  cases scale <;> cases origin <;> cases handle <;> cases rotation <;> cases color <;> rfl

theorem agree_restore (p : Painter) (s : SavedPen) : s.mask.Agree (p.restore s).pen s.pen := by
  rw [pen_restore]
  exact ⟨fun h ↦ if_pos h, fun h ↦ if_pos h, fun h ↦ if_pos h, fun h ↦ if_pos h, fun h ↦ if_pos h⟩

/-- The pen that was saved first is restored last. -/
theorem unwind_of_suffix {p : Painter} {mask : PenMask} {pen : Pen} {rest : List SavedPen}
    (h : (⟨mask, pen⟩ :: rest : List SavedPen) <:+ p.saved) :
    (p.unwind rest.length).saved = rest ∧ mask.Agree (p.unwind rest.length).pen pen := by
  obtain ⟨above, hsaved⟩ := h
  have habove : p.saved.length - rest.length = (above ++ [SavedPen.mk mask pen]).length := by
    simp only [← hsaved, List.length_append, List.length_cons, List.length_nil]
    omega
  have hsplit : p.saved = (above ++ [SavedPen.mk mask pen]) ++ rest := by
    rw [← hsaved, List.append_assoc]
    rfl
  have hunwind : p.unwind rest.length =
      (above.foldl restore { p with saved := rest }).restore ⟨mask, pen⟩ := by
    unfold unwind
    dsimp only
    rw [habove, hsplit, List.take_left, List.drop_left, List.foldl_append]
    rfl
  rw [hunwind]
  exact ⟨(saved_restore _ _).trans (saved_foldl_restore _ _), agree_restore _ ⟨mask, pen⟩⟩

theorem saved_unwind (p : Painter) (depth : Nat) :
    (p.unwind depth).saved = p.saved.drop (p.saved.length - depth) :=
  saved_foldl_restore _ _

/-! ## The stack under calls -/

theorem saved_transform (p : Painter) : p.transform.2.saved = p.saved := by
  rw [transform_eq]

theorem saved_stageFor (p : Painter) (texture : Option Texture) : (p.stageFor texture).2.saved = p.saved := by
  rw [stageFor_eq]

theorem saved_drawQuad (p : Painter) (texture : Option Texture) (quad : Quad) :
    (p.after (.drawQuad texture quad)).saved = p.saved := by
  rcases after_drawQuad_cases p texture quad with ⟨fault, -, hafter⟩ | ⟨position, size, -, hafter⟩
  · rw [hafter]
  · obtain ⟨_, _, _, _, _, _, hplace⟩ := exists_place_eq p texture quad position size
    rw [hafter, hplace]

theorem saved_flush (p : Painter) (refusal : Refusal) (r : Recorder) :
    (p.flush refusal r).2.painter.saved = p.saved := by
  obtain ⟨vertexBuffer, indexBuffer, unsent, hpainter⟩ := painter_flush p refusal r
  rw [hpainter]

/-- A call adds to the stack of saved pens or takes from it, but not both. -/
theorem saved_after (p : Painter) (call : PaintCall) :
    p.saved <:+ (p.after call).saved ∨ (p.after call).saved <:+ p.saved := by
  cases call with
  | save mask => exact .inl (List.suffix_cons _ _)
  | pop =>
    right
    unfold after pop
    cases hsaved : p.saved with
    | nil => simp [hsaved]
    | cons s rest =>
      rw [saved_restore]
      exact List.suffix_cons s rest
  | unwind depth =>
    right
    change (p.unwind depth).saved <:+ p.saved
    rw [saved_unwind]
    exact List.drop_suffix _ _
  | drawQuad texture quad => exact .inl (saved_drawQuad p texture quad ▸ List.suffix_rfl)
  | stageFor texture => exact .inl (saved_stageFor p texture ▸ List.suffix_rfl)
  | transform => exact .inl (saved_transform p ▸ List.suffix_rfl)
  | flush refusal recorder => exact .inl (saved_flush p refusal recorder ▸ List.suffix_rfl)
  | setScale | setRotation | setOrigin | setHandle | setColor | clear => exact .inl List.suffix_rfl

/-- The stack of saved pens is deeper than some depth before the calls, between them and after them. -/
def StaysAbove (p : Painter) (depth : Nat) (calls : List PaintCall) : Prop :=
  ∀ front, front <+: calls → depth < (p.afterAll front).saved.length

variable {p : Painter} {calls : List PaintCall} {s : SavedPen} {rest : List SavedPen}

/-- As long as the stack stays deeper than what lies below a saved pen, that pen stays on it. -/
theorem suffix_afterAll (h : s :: rest <:+ p.saved) (hdeep : p.StaysAbove rest.length calls) :
    s :: rest <:+ (p.afterAll calls).saved := by
  induction calls generalizing p with
  | nil => exact h
  | cons call calls ih =>
    have hcall : rest.length < (p.after call).saved.length :=
      hdeep [call] ⟨calls, rfl⟩
    have hafter : s :: rest <:+ (p.after call).saved := by
      rcases saved_after p call with hgrown | hshrunk
      · exact h.trans hgrown
      · exact List.suffix_of_suffix_length_le h hshrunk hcall
    apply ih hafter
    intro front hfront
    exact hdeep (call :: front) ((List.prefix_cons_inj call).mpr hfront)

/-- A guard gives back what it has saved. Whatever is done to the painter under it, as long as no call takes the
guard's own pen off the stack: in the end the saved pens are the ones from before the guard, and the pen has the
components that the mask selects as they were before the guard, whatever pens with whatever masks were left on
the stack. A guard within the guard is a save and an unwinding to the depth from before it. -/
theorem unwind_gives_back (p : Painter) (mask : PenMask) (calls : List PaintCall)
    (hkept : (p.save mask).StaysAbove p.saved.length calls) :
    (((p.save mask).afterAll calls).unwind p.saved.length).saved = p.saved ∧
      mask.Agree (((p.save mask).afterAll calls).unwind p.saved.length).pen p.pen := by
  have hsuffix : ⟨mask, p.pen⟩ :: p.saved <:+ ((p.save mask).afterAll calls).saved :=
    suffix_afterAll List.suffix_rfl hkept
  exact unwind_of_suffix hsuffix

/-- A guard for the origin and the color, under which pens with other masks are saved and left on the stack, one
of them by a guard within the guard, after which yet another is taken off again. -/
def guarded : List PaintCall :=
  [.setColor .black, .save .all, .setOrigin .one, .save { PenMask.none with scale := true, color := true },
    .setScale .zero, .save .originOnly, .unwind 2, .setColor .pureRed, .pop, .setRotation 1, .save .originOnly]

theorem unwind_gives_back_nested : ((standard.save { PenMask.originOnly with color := true }).StaysAbove 0 guarded) ∧
    (((standard.save { PenMask.originOnly with color := true }).afterAll guarded).saved.length = 2) ∧
    (((standard.save { PenMask.originOnly with color := true }).afterAll guarded).unwind 0).saved = [] ∧
    (((standard.save { PenMask.originOnly with color := true }).afterAll guarded).unwind 0).pen.origin = .zero ∧
    (((standard.save { PenMask.originOnly with color := true }).afterAll guarded).unwind 0).pen.color = .white := by
  have hkept : (standard.save { PenMask.originOnly with color := true }).StaysAbove 0 guarded := by
    intro front hfront
    rw [← List.mem_inits] at hfront
    revert front
    decide
  have hback := unwind_gives_back standard { PenMask.originOnly with color := true } guarded hkept
  exact ⟨hkept, rfl, hback.1, hback.2.origin rfl, hback.2.color rfl⟩

end Painter

end RetainedUi
