import RetainedUi.Proofs.Paint.Flushing

/-!
# Batched drawing shows what was drawn

A painter is used by calls in any order: quads are drawn, with all their geometry or not, stages are
asked for, the pen is changed, saved and restored, quads are forgotten, and everything is flushed to one
device or another. Whatever the calls were, a flush shows the quads drawn with success since the painter
was last cleared, in the order in which they were drawn, each with its own texture and its own corners.
-/

namespace RetainedUi

/-- What a user may ask of a painter. -/
inductive PaintCall where
  | drawQuad (texture : Option Texture) (quad : Quad)
  | stageFor (texture : Option Texture)
  | setScale (scale : Vec)
  | setRotation (rotation : Float32)
  | setOrigin (origin : Vec)
  | setHandle (handle : Vec)
  | setColor (color : Color)
  | save (mask : PenMask)
  | pop
  | unwind (depth : Nat)
  | transform
  | clear
  /-- A flush to a device in any state, which refuses some allocations. -/
  | flush (refusal : Refusal) (recorder : Recorder)

/-- Whether a call is about the pen, the saved pens and the map, and about nothing else. -/
def PaintCall.isPen : PaintCall → Bool
  | .setScale _ | .setRotation _ | .setOrigin _ | .setHandle _ | .setColor _ | .save _ | .pop | .unwind _
  | .transform => true
  | .drawQuad _ _ | .stageFor _ | .clear | .flush _ _ => false

/-- Whether a call leaves it to the quads which stages there are. -/
def PaintCall.leavesStages : PaintCall → Bool
  | .stageFor _ | .clear => false
  | _ => true

/-- The texture of the quad that a call draws, if it draws one. -/
def PaintCall.texture? : PaintCall → Option (Option Texture)
  | .drawQuad texture quad => match quad.geometry with
    | .ok _ => some texture
    | .error _ => none
  | _ => none

namespace Painter

/-- The painter after a call, which may have failed. -/
def after (p : Painter) : PaintCall → Painter
  | .drawQuad texture quad => (p.drawQuad texture quad).2
  | .stageFor texture => (p.stageFor texture).2
  | .setScale scale => p.setScale scale
  | .setRotation rotation => p.setRotation rotation
  | .setOrigin origin => p.setOrigin origin
  | .setHandle handle => p.setHandle handle
  | .setColor color => p.setColor color
  | .save mask => p.save mask
  | .pop => match p.pop with
    | .ok popped => popped
    | .error _ => p
  | .unwind depth => p.unwind depth
  | .transform => p.transform.2
  | .clear => p.clear
  | .flush refusal recorder => (p.flush refusal recorder).2.painter

/-- The quads drawn since the painter was last cleared, after another call. -/
def quadsAfter (p : Painter) (quads : List Drawn) : PaintCall → List Drawn
  | .drawQuad texture quad => match quad.geometry with
    | .ok (position, size) => quads ++ [p.drawn texture quad position size]
    | .error _ => quads
  | .clear => []
  | _ => quads

/-- The painter after calls, together with the quads drawn since it was last cleared. -/
def trace (start : Painter × List Drawn) (calls : List PaintCall) : Painter × List Drawn :=
  calls.foldl (fun (p, quads) call ↦ (p.after call, p.quadsAfter quads call)) start

/-- The painter after calls. -/
def afterAll (p : Painter) (calls : List PaintCall) : Painter := calls.foldl after p

theorem trace_fst (p : Painter) (quads : List Drawn) (calls : List PaintCall) :
    (trace (p, quads) calls).1 = p.afterAll calls := by
  induction calls generalizing p quads with
  | nil => rfl
  | cons call calls ih => exact ih (p.after call) (p.quadsAfter quads call)

/-- A quad without all its geometry is not drawn. -/
theorem after_drawQuad_cases (p : Painter) (texture : Option Texture) (quad : Quad) :
    (∃ fault, quad.geometry = .error fault ∧ p.after (.drawQuad texture quad) = p) ∨
      ∃ position size, quad.geometry = .ok (position, size) ∧
        p.after (.drawQuad texture quad) = p.place texture quad position size := by
  simp only [after, drawQuad]
  cases quad.geometry with
  | error fault => exact .inl ⟨fault, rfl, rfl⟩
  | ok geometry => exact .inr ⟨geometry.1, geometry.2, rfl, rfl⟩

/-! ## Calls on the pen -/

theorem restore_eq (p : Painter) (s : SavedPen) :
    ∃ pen mapStale, p.restore s = { p with pen, mapStale } := by
  obtain ⟨⟨scale, origin, handle, rotation, color⟩, pen⟩ := s
  cases scale <;> cases origin <;> cases handle <;> cases rotation <;> cases color <;> exact ⟨_, _, rfl⟩

theorem foldl_restore_eq (p : Painter) (saved : List SavedPen) :
    ∃ pen mapStale, saved.foldl restore p = { p with pen, mapStale } := by
  induction saved generalizing p with
  | nil => exact ⟨p.pen, p.mapStale, rfl⟩
  | cons s saved ih =>
    obtain ⟨pen, mapStale, hrestore⟩ := restore_eq p s
    obtain ⟨pen', mapStale', hrest⟩ := ih (p.restore s)
    refine ⟨pen', mapStale', ?_⟩
    rw [List.foldl_cons, hrest, hrestore]

/-- A call on the pen leaves everything else as it is. -/
theorem after_of_isPen {call : PaintCall} (h : call.isPen = true) (p : Painter) :
    ∃ pen saved map mapStale, p.after call = { p with pen, saved, map, mapStale } := by
  cases call with
  | setScale | setRotation | setOrigin | setHandle | setColor | save => exact ⟨_, _, _, _, rfl⟩
  | transform => exact ⟨_, _, _, _, transform_eq p⟩
  | pop =>
    unfold after pop
    cases p.saved with
    | nil => exact ⟨_, _, _, _, rfl⟩
    | cons s rest =>
      obtain ⟨pen, mapStale, hrestore⟩ := restore_eq { p with saved := rest } s
      exact ⟨pen, rest, p.map, mapStale, hrestore⟩
  | unwind depth =>
    obtain ⟨pen, mapStale, hrestore⟩ := foldl_restore_eq
      { p with saved := p.saved.drop (p.saved.length - depth) } (p.saved.take (p.saved.length - depth))
    exact ⟨pen, _, p.map, mapStale, hrestore⟩
  | drawQuad | stageFor | clear | flush => cases h

theorem sheet_after_of_isPen {call : PaintCall} (h : call.isPen = true) (p : Painter) :
    (p.after call).sheet = p.sheet := by
  obtain ⟨_, _, _, _, hafter⟩ := after_of_isPen h p
  rw [hafter]
  rfl

/-! ## The quads of a run of calls -/

/-- What a call does to the runs. It keeps them, or it draws a quad at the end of a last run that is there for it. Only
a call that opens a stage or forgets everything does something else. -/
theorem Batched.after_cases {p : Painter} {runs : List Run} (h : p.Batched runs) (call : PaintCall) :
    ((p.after call).Batched runs ∧ p.quadsAfter (Run.allQuads runs) call = Run.allQuads runs) ∨
      (∃ texture front last quad, (p.after call).Batched (front ++ [last.append quad]) ∧
        Run.Readied p.config.stageLimit texture runs (front ++ [last]) ∧ last.texture = texture ∧
        p.quadsAfter (Run.allQuads runs) call = Run.allQuads runs ++ [quad]) ∨
      call.leavesStages = false ∧ ∃ others, (p.after call).Batched others ∧
        Run.allQuads others = p.quadsAfter (Run.allQuads runs) call := by
  cases call with
  | drawQuad texture quad =>
    simp only [Painter.after, Painter.drawQuad, quadsAfter]
    cases quad.geometry with
    | error fault => exact .inl ⟨h, rfl⟩
    | ok geometry =>
      obtain ⟨front, last, hreadied, htexture, -, hbatched⟩ := h.place texture quad geometry.1 geometry.2
      exact .inr (.inl ⟨texture, front, last, _, hbatched, hreadied, htexture, rfl⟩)
  | stageFor texture =>
    obtain ⟨front, last, hbatched, -, -, -, hreadied⟩ := h.stageFor texture
    exact .inr (.inr ⟨rfl, front ++ [last], hbatched, hreadied.allQuads_eq⟩)
  | clear => exact .inr (.inr ⟨rfl, [], h.clear, rfl⟩)
  | flush refusal recorder => exact .inl ⟨h.congr (sheet_flush p refusal recorder), rfl⟩
  | setScale | setRotation | setOrigin | setHandle | setColor | save | pop | unwind | transform =>
    exact .inl ⟨h.congr (sheet_after_of_isPen rfl p), rfl⟩

/-- Every call keeps the runs in step with the quads. -/
theorem Batched.after {p : Painter} {runs : List Run} (h : p.Batched runs) (call : PaintCall) :
    ∃ others, (p.after call).Batched others ∧
      Run.allQuads others = p.quadsAfter (Run.allQuads runs) call := by
  rcases h.after_cases call with ⟨hbatched, hquads⟩ | ⟨_, _, _, quad, hbatched, hreadied, -, hquads⟩ |
    ⟨-, others, hbatched, hquads⟩
  · exact ⟨runs, hbatched, hquads.symm⟩
  · exact ⟨_, hbatched, (hreadied.allQuads_append quad).trans hquads.symm⟩
  · exact ⟨others, hbatched, hquads⟩

theorem Batched.trace {p : Painter} {runs : List Run} (h : p.Batched runs) (calls : List PaintCall) :
    ∃ others, (trace (p, Run.allQuads runs) calls).1.Batched others ∧
      Run.allQuads others = (trace (p, Run.allQuads runs) calls).2 := by
  induction calls generalizing p runs with
  | nil => exact ⟨runs, h, rfl⟩
  | cons call calls ih =>
    obtain ⟨others, hbatched, hquads⟩ := h.after call
    have hrest := ih hbatched
    rw [hquads] at hrest
    exact hrest

/-- A flush after any calls on a new painter shows the two triangles of every quad drawn with success since
the last clear, in order. A flush fails only if the device refuses an allocation, and shows nothing then. -/
theorem flush_shows (config : PainterConfig) (calls : List PaintCall) (refusal : Refusal) (r : Recorder) :
    let p := (trace (ofConfig config, []) calls).1
    let quads := (trace (ofConfig config, []) calls).2
    ∃ sent, (p.flush refusal r).2.recorder.log.toList = r.log.toList ++ sent ∧
      ((p.flush refusal r).1 = .ok () →
        DeviceCall.read p.vertices.toList p.indices r.bound sent =
          some (quads.flatMap Drawn.triangles)) ∧
      ∀ fault, (p.flush refusal r).1 = .error fault →
        Submission.Refused refusal fault ∧ ∀ call ∈ sent, call.isDraw = false := by
  obtain ⟨runs, hbatched, hquads⟩ := (batched_ofConfig config).trace calls
  obtain ⟨sent, hlog, hread, hrefused⟩ := hbatched.flush refusal r
  rw [hquads] at hread
  exact ⟨sent, hlog, hread, hrefused⟩

end Painter

end RetainedUi
