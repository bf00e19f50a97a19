import RetainedUi.Proofs.Paint.SavedPens

/-!
# The map is computed when it is needed

A painter computes its map from the scale and the rotation of the pen, keeps it, and computes it again only if
it has to. Scale and rotation are given to the pen by their setters and by every restore of a saved pen whose mask
selects them. What is given is compared with what it replaces. The comparison is that of numbers, in which the two
zeros agree and a NaN agrees with nothing, itself included.

A record tells what a map is good for: the pen for which it was computed last, and every scale and rotation that
was given to the pen since. The map in use is the one of the record as long as all that was given compares equal
to what it replaced, and the one of the current pen otherwise.
-/

namespace RetainedUi

/-- A scale or a rotation that is given to a pen, behind the one that it replaces. -/
inductive Assignment where
  | scale (old new : Vec)
  | rotation (old new : Float32)

/-- Whether what is given compares equal to what it replaces. -/
def Assignment.agrees : Assignment → Bool
  | scale old new => new == old
  | rotation old new => new == old

/-- The map for a pen: first its rotation, then its scaling. -/
def Pen.map (pen : Pen) : LinearMap2 := (LinearMap2.scaling pen.scale).compose (LinearMap2.rotation pen.rotation)

/-- What a restore of a saved pen gives to a pen. -/
def SavedPen.assignments (s : SavedPen) (pen : Pen) : List Assignment :=
  (if s.mask.scale then [.scale pen.scale s.pen.scale] else []) ++
    if s.mask.rotation then [.rotation pen.rotation s.pen.rotation] else []

/-- Whether a call uses the map: it asks for the map, or it draws a quad. -/
def PaintCall.usesMap : PaintCall → Bool
  | .transform => true
  | call => call.texture?.isSome

/-- What a map is good for. -/
structure MapRecord where
  /-- The pen for which the map was computed last. -/
  pen : Pen
  /-- What was given to the pen since then, in turn. -/
  given : List Assignment

/-- Whether all that was given to the pen agrees with what it replaced. -/
def MapRecord.agrees (r : MapRecord) : Bool := r.given.all Assignment.agrees

namespace Painter

/-- What is given to the pen when saved pens are restored one after the other. -/
def givenBack (p : Painter) : List SavedPen → List Assignment
  | [] => []
  | s :: above => s.assignments p.pen ++ (p.restore s).givenBack above

/-- What a call gives to the pen. -/
def assignments (p : Painter) : PaintCall → List Assignment
  | .setScale scale => [.scale p.pen.scale scale]
  | .setRotation rotation => [.rotation p.pen.rotation rotation]
  | .pop => p.givenBack (p.saved.take 1)
  | .unwind depth => p.givenBack (p.saved.take (p.saved.length - depth))
  | _ => []

/-- The record of the map after a call. A call that uses a stale map begins a new record. -/
def recordAfter (p : Painter) (record : Option MapRecord) (call : PaintCall) : Option MapRecord :=
  if call.usesMap && p.mapStale then some ⟨p.pen, []⟩
  else record.map fun r ↦ { r with given := r.given ++ p.assignments call }

/-- The record of the map after calls. -/
def recordAfterAll (p : Painter) (record : Option MapRecord) : List PaintCall → Option MapRecord
  | [] => record
  | call :: calls => (p.after call).recordAfterAll (p.recordAfter record call) calls

/-! ## What a call does to the map -/

/-- The map is left as it is, and gets stale if some of what was given does not agree. -/
structure KeepsMap (p q : Painter) (given : List Assignment) : Prop where
  map : q.map = p.map
  mapStale : q.mapStale = (p.mapStale || !given.all Assignment.agrees)

theorem KeepsMap.trans {p q r : Painter} {given later : List Assignment} (hpq : p.KeepsMap q given)
    (hqr : q.KeepsMap r later) : p.KeepsMap r (given ++ later) where
  map := hqr.map.trans hpq.map
  mapStale := by rw [hqr.mapStale, hpq.mapStale, List.all_append, Bool.not_and, Bool.or_assoc]

/-- Nothing about the map changes where nothing is given to the pen. -/
theorem keepsMap_of_eq {p q : Painter} (hmap : q.map = p.map) (hstale : q.mapStale = p.mapStale) :
    p.KeepsMap q [] :=
  ⟨hmap, by rw [hstale, List.all_nil, Bool.not_true, Bool.or_false]⟩

theorem keepsMap_restore (p : Painter) (s : SavedPen) : p.KeepsMap (p.restore s) (s.assignments p.pen) := by
  obtain ⟨⟨scale, origin, handle, rotation, color⟩, pen⟩ := s
  unfold restore SavedPen.assignments
  constructor
  · cases scale <;> cases origin <;> cases handle <;> cases rotation <;> cases color <;> rfl
  · cases scale <;> cases rotation <;> cases origin <;> cases handle <;> cases color <;>
      simp [setScale, setRotation, setOrigin, setHandle, setColor, Assignment.agrees, Bool.or_assoc, Bool.not_and]

theorem keepsMap_foldl_restore (p : Painter) (above : List SavedPen) :
    p.KeepsMap (above.foldl restore p) (p.givenBack above) := by
  induction above generalizing p with
  | nil => exact keepsMap_of_eq rfl rfl
  | cons s above ih => exact (keepsMap_restore p s).trans (ih (p.restore s))

/-- What is given back does not depend on the pens that stay on the stack. -/
theorem givenBack_congr {p q : Painter} (hpen : q.pen = p.pen) (above : List SavedPen) :
    q.givenBack above = p.givenBack above := by
  induction above generalizing p q with
  | nil => rfl
  | cons s above ih =>
    have hnext : (q.restore s).pen = (p.restore s).pen := by rw [pen_restore, pen_restore, hpen]
    rw [givenBack, givenBack, hpen, ih hnext]

/-- Saved pens are taken off the stack and restored. -/
theorem keepsMap_takenOff (p : Painter) (above rest : List SavedPen) :
    p.KeepsMap (above.foldl restore { p with saved := rest }) (p.givenBack above) := by
  have hrestored := keepsMap_foldl_restore { p with saved := rest } above
  have hpen : { p with saved := rest }.pen = p.pen := rfl
  rw [givenBack_congr hpen] at hrestored
  exact ⟨hrestored.map, hrestored.mapStale⟩

theorem transform_of_stale {p : Painter} (h : p.mapStale = true) : p.transform.1 = p.pen.map := by
  unfold transform
  rw [if_pos h]
  rfl

theorem transform_of_current {p : Painter} (h : p.mapStale = false) : p.transform.1 = p.map := by
  unfold transform
  rw [if_neg (Bool.eq_false_iff.mp h)]

theorem map_place (p : Painter) (texture : Option Texture) (quad : Quad) (position size : Vec) :
    (p.place texture quad position size).map = p.transform.1 ∧
      (p.place texture quad position size).mapStale = false := by
  rw [place_eq, appended, stageFor_eq, transform_eq]
  exact ⟨rfl, rfl⟩

/-- Whoever uses the map leaves it computed. -/
theorem map_after_of_usesMap (p : Painter) {call : PaintCall} (h : call.usesMap = true) :
    (p.after call).map = p.transform.1 ∧ (p.after call).mapStale = false := by
  cases call with
  | transform =>
    change p.transform.2.map = _ ∧ p.transform.2.mapStale = _
    rw [transform_eq]
    exact ⟨rfl, rfl⟩
  | drawQuad texture quad =>
    rcases after_drawQuad_cases p texture quad with ⟨fault, hgeometry, -⟩ | ⟨position, size, -, hafter⟩
    · simp [PaintCall.usesMap, PaintCall.texture?, hgeometry] at h
    · rw [hafter]
      exact map_place p texture quad position size
  | stageFor | setScale | setRotation | setOrigin | setHandle | setColor | save | pop | unwind | clear | flush =>
    cases h

/-- A call that does not have to compute the map only gives something to the pen. -/
theorem keepsMap_after (p : Painter) {call : PaintCall} (h : (call.usesMap && p.mapStale) = false) :
    p.KeepsMap (p.after call) (p.assignments call) := by
  cases call with
  | setScale scale => exact ⟨rfl, by simp [after, assignments, setScale, Assignment.agrees]⟩
  | setRotation rotation => exact ⟨rfl, by simp [after, assignments, setRotation, Assignment.agrees]⟩
  | pop =>
    unfold after assignments pop
    cases p.saved with
    | nil => exact keepsMap_of_eq rfl rfl
    | cons s rest => exact keepsMap_takenOff p [s] rest
  | unwind depth => exact keepsMap_takenOff p _ _
  | transform =>
    have hcurrent : p.mapStale = false := h
    have huses : PaintCall.transform.usesMap = true := rfl
    have hafter := map_after_of_usesMap p huses
    rw [transform_of_current hcurrent] at hafter
    exact keepsMap_of_eq hafter.1 (hafter.2.trans hcurrent.symm)
  | drawQuad texture quad =>
    cases hdraws : (PaintCall.drawQuad texture quad).usesMap with
    | true =>
      rw [hdraws, Bool.true_and] at h
      have hafter := map_after_of_usesMap p hdraws
      rw [transform_of_current h] at hafter
      exact keepsMap_of_eq hafter.1 (hafter.2.trans h.symm)
    | false =>
      rcases after_drawQuad_cases p texture quad with ⟨fault, -, hafter⟩ | ⟨position, size, hgeometry, -⟩
      · rw [hafter]
        exact keepsMap_of_eq rfl rfl
      · simp [PaintCall.usesMap, PaintCall.texture?, hgeometry] at hdraws
  | stageFor texture =>
    change p.KeepsMap (p.stageFor texture).2 []
    rw [stageFor_eq]
    exact keepsMap_of_eq rfl rfl
  | flush refusal recorder =>
    obtain ⟨vertexBuffer, indexBuffer, unsent, hpainter⟩ := painter_flush p refusal recorder
    change p.KeepsMap (p.flush refusal recorder).2.painter []
    rw [hpainter]
    exact keepsMap_of_eq rfl rfl
  | setOrigin | setHandle | setColor | save | clear => exact keepsMap_of_eq rfl rfl

/-! ## The record is right -/

/-- The map was computed for the pen of the record, and it counts as stale just if there is no such pen or some of
what was given to it since does not agree. -/
structure Recorded (p : Painter) (record : Option MapRecord) : Prop where
  map : ∀ r, record = some r → p.map = r.pen.map
  mapStale : p.mapStale = !record.any MapRecord.agrees

namespace Recorded

variable {p : Painter} {record : Option MapRecord}

theorem after (h : p.Recorded record) (call : PaintCall) : (p.after call).Recorded (p.recordAfter record call) := by
  unfold recordAfter
  cases hcomputes : call.usesMap && p.mapStale with
  | true =>
    obtain ⟨huses, hstale⟩ := Bool.and_eq_true_iff.mp hcomputes
    obtain ⟨hmap, hcurrent⟩ := map_after_of_usesMap p huses
    rw [transform_of_stale hstale] at hmap
    rw [if_pos rfl]
    refine ⟨fun r hr ↦ ?_, hcurrent⟩
    cases hr
    exact hmap
  | false =>
    have hkeeps := keepsMap_after p hcomputes
    rw [if_neg Bool.false_ne_true]
    constructor
    · intro r hr
      obtain ⟨old, hold, rfl⟩ := Option.map_eq_some_iff.mp hr
      exact hkeeps.map.trans (h.map old hold)
    · rw [hkeeps.mapStale, h.mapStale]
      cases record with
      | none => rfl
      | some r => simp [MapRecord.agrees, Bool.not_and]

theorem afterAll (h : p.Recorded record) (calls : List PaintCall) :
    (p.afterAll calls).Recorded (p.recordAfterAll record calls) := by
  induction calls generalizing p record with
  | nil => exact h
  | cons call calls ih => exact ih (h.after call)

end Recorded

theorem recorded_ofConfig (config : PainterConfig) : (ofConfig config).Recorded none where
  map _ hr := by cases hr
  mapStale := rfl

/-- What a record says about the map is what a user of the map gets. -/
theorem Recorded.transform_eq {p : Painter} {record : Option MapRecord} (h : p.Recorded record) :
    ((∀ r, record = some r → ∃ a ∈ r.given, a.agrees = false) ∧ p.transform.1 = p.pen.map) ∨
      ∃ r, record = some r ∧ (∀ a ∈ r.given, a.agrees = true) ∧ p.transform.1 = r.pen.map := by
  cases hstale : p.mapStale with
  | true =>
    refine .inl ⟨fun r hr ↦ ?_, transform_of_stale hstale⟩
    have hdiffers : r.given.all Assignment.agrees = false := by simpa [hr, MapRecord.agrees, hstale] using h.mapStale
    obtain ⟨a, ha, hagrees⟩ := List.all_eq_false.mp hdiffers
    exact ⟨a, ha, Bool.eq_false_iff.mpr hagrees⟩
  | false =>
    have hagrees : record.any MapRecord.agrees = true := by simpa [hstale] using h.mapStale
    obtain ⟨r, hr, hall⟩ := (Option.any_eq_true _ _).mp hagrees
    refine .inr ⟨r, hr, List.all_eq_true.mp hall, ?_⟩
    calc
      p.transform.1 = p.map := transform_of_current hstale
      _ = r.pen.map := h.map r hr

/-- A quad is placed by the map that a user would get. -/
theorem vertices_drawQuad (p : Painter) (texture : Option Texture) (quad : Quad) :
    (p.after (.drawQuad texture quad)).vertices.toList = p.vertices.toList ++
      match quad.geometry with
      | .ok (position, size) => quad.corners p.pen p.transform.1 position size
      | .error _ => [] := by
  rcases after_drawQuad_cases p texture quad with ⟨fault, hgeometry, hafter⟩ | ⟨position, size, hgeometry, hafter⟩
  · rw [hafter, hgeometry, List.append_nil]
  · rw [hafter, hgeometry, place_eq, appended, stageFor_eq, transform_eq]
    simp [drawn]

/-- The map is never stale. After any calls on a new painter, it is the map for the current pen, or else for the pen
for which it was computed last, in which case every scale and rotation that was given to the pen since compares
equal to the one that it replaced. This is the map that places the corners of a quad. -/
theorem transform_never_stale (config : PainterConfig) (calls : List PaintCall) :
    let p := (ofConfig config).afterAll calls
    let record := (ofConfig config).recordAfterAll none calls
    (((∀ r, record = some r → ∃ a ∈ r.given, a.agrees = false) ∧ p.transform.1 = p.pen.map) ∨
      ∃ r, record = some r ∧ (∀ a ∈ r.given, a.agrees = true) ∧ p.transform.1 = r.pen.map) ∧
    ∀ texture quad, (p.after (.drawQuad texture quad)).vertices.toList = p.vertices.toList ++
      match quad.geometry with
      | .ok (position, size) => quad.corners p.pen p.transform.1 position size
      | .error _ => [] := by
  intro p record
  have hrecorded : p.Recorded record := (recorded_ofConfig config).afterAll calls
  exact ⟨hrecorded.transform_eq, p.vertices_drawQuad⟩

/-- Negative zero agrees with zero, so the map that was computed for zero stays in use. -/
example : standard.recordAfterAll none [.setScale .zero, .transform, .setScale (-.zero)] =
    some ⟨{ Pen.initial with scale := .zero }, [.scale .zero (-.zero)]⟩ := rfl

end Painter

end RetainedUi
