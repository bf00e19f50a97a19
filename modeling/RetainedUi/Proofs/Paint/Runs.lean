import Mathlib.Data.List.Basic
import RetainedUi.Paint.Painter

/-!
# Runs of quads

The stages of a painter stand for runs of quads, each with one texture. The runs determine all that the
painter keeps of its quads: the corners are listed quad by quad, the triangles refer to them from the
start of their run, and each stage begins where the run before it has ended.

Drawing a quad appends it to the last run if that has its texture and room for it, and else begins a new
run with it. So the runs put together are the quads in the order in which they were drawn.
-/

namespace RetainedUi

/-- A quad as it was drawn. -/
structure Drawn where
  texture : Option Texture
  corners : List Vertex
  length_corners : corners.length = Quad.vertexCount

/-- Quads that are drawn by one call, with the texture of the call. -/
structure Run where
  texture : Option Texture
  quads : List Drawn

namespace Run

/-- A run without quads. -/
def start (texture : Option Texture) : Run := ⟨texture, []⟩

/-- A run with another quad. -/
def append (run : Run) (quad : Drawn) : Run := { run with quads := run.quads ++ [quad] }

/-- The stage of a run that has so many quads before it. -/
def stage (before : Nat) (run : Run) : Stage where
  texture := run.texture
  vertices := Quad.vertexCount * run.quads.length
  faces := Quad.faceCount * run.quads.length
  baseVertex := Quad.vertexCount * before
  baseFace := Quad.faceCount * before

/-- The triangles of quads that have so many quads of their run before them. -/
def facesFrom : Nat → List Drawn → List Face
  | _, [] => []
  | before, _ :: quads =>
    Quad.triangles (.ofNat (Quad.vertexCount * before)) ++ facesFrom (before + 1) quads

/-- The stages of runs that have so many quads before them. -/
def stagesFrom : Nat → List Run → List Stage
  | _, [] => []
  | before, run :: runs => run.stage before :: stagesFrom (before + run.quads.length) runs

/-- The quads of runs, in order. -/
def allQuads (runs : List Run) : List Drawn := runs.flatMap Run.quads

/-- The triangles of a run. -/
def faces (run : Run) : List Face := facesFrom 0 run.quads

theorem facesFrom_append (before : Nat) (quads others : List Drawn) :
    facesFrom before (quads ++ others) =
      facesFrom before quads ++ facesFrom (before + quads.length) others := by
  induction quads generalizing before with
  | nil => rfl
  | cons quad quads ih =>
    have hcount : before + 1 + quads.length = before + (quads.length + 1) := by omega
    rw [List.cons_append, facesFrom, ih, facesFrom, List.append_assoc, List.length_cons, hcount]

@[simp]
theorem length_facesFrom (before : Nat) (quads : List Drawn) :
    (facesFrom before quads).length = Quad.faceCount * quads.length := by
  induction quads generalizing before with
  | nil => rfl
  | cons quad quads ih =>
    rw [facesFrom, List.length_append, ih, List.length_cons, Nat.mul_succ, Nat.add_comm]
    rfl

@[simp]
theorem length_corners (quads : List Drawn) :
    (quads.flatMap Drawn.corners).length = Quad.vertexCount * quads.length := by
  induction quads with
  | nil => rfl
  | cons quad quads ih =>
    rw [List.flatMap_cons, List.length_append, ih, quad.length_corners, List.length_cons, Nat.mul_succ,
      Nat.add_comm]

theorem length_allQuads_cons (run : Run) (runs : List Run) :
    (allQuads (run :: runs)).length = run.quads.length + (allQuads runs).length := by
  simp [allQuads]

theorem stagesFrom_append (before : Nat) (runs others : List Run) :
    stagesFrom before (runs ++ others) =
      stagesFrom before runs ++ stagesFrom (before + (allQuads runs).length) others := by
  induction runs generalizing before with
  | nil => rfl
  | cons run runs ih =>
    rw [List.cons_append, stagesFrom, ih, stagesFrom, List.cons_append, length_allQuads_cons, Nat.add_assoc]

theorem stagesFrom_concat (runs : List Run) (run : Run) :
    stagesFrom 0 (runs ++ [run]) = stagesFrom 0 runs ++ [run.stage (allQuads runs).length] := by
  rw [stagesFrom_append, Nat.zero_add, stagesFrom, stagesFrom]

@[simp]
theorem length_stagesFrom (before : Nat) (runs : List Run) :
    (stagesFrom before runs).length = runs.length := by
  induction runs generalizing before with
  | nil => rfl
  | cons run runs ih => rw [stagesFrom, List.length_cons, ih, List.length_cons]

theorem allQuads_concat (runs : List Run) (run : Run) :
    allQuads (runs ++ [run]) = allQuads runs ++ run.quads := by
  simp [allQuads]

/-- The runs that are there for a quad with a texture: the same ones, or one more without quads if the last one
has another texture or no room for the quad. -/
inductive Readied (limit : Nat) (texture : Option Texture) (runs : List Run) : List Run → Prop
  | same : Readied limit texture runs runs
  | opened (hfull : ∀ last ∈ runs.getLast?, last.texture = texture →
      limit < Quad.vertexCount * last.quads.length + Quad.vertexCount) :
      Readied limit texture runs (runs ++ [start texture])

namespace Readied

variable {limit : Nat} {texture : Option Texture} {runs others : List Run}

theorem allQuads_eq (h : Readied limit texture runs others) : allQuads others = allQuads runs := by
  cases h with
  | same => rfl
  | opened => exact (allQuads_concat runs (start texture)).trans (List.append_nil _)

/-- A quad that is appended to the last run comes after all others. -/
theorem allQuads_append {front : List Run} {last : Run} (h : Readied limit texture runs (front ++ [last]))
    (quad : Drawn) : allQuads (front ++ [last.append quad]) = allQuads runs ++ [quad] := by
  rw [allQuads_concat, append, ← List.append_assoc, ← allQuads_concat, h.allQuads_eq]

theorem faces_eq (h : Readied limit texture runs others) : others.flatMap faces = runs.flatMap faces := by
  cases h with
  | same => rfl
  | opened => rw [List.flatMap_append, List.flatMap_singleton, faces, start, facesFrom, List.append_nil]

end Readied

end Run

namespace Painter

/-- What a painter keeps of the quads drawn on it, and how long its runs may get. -/
def sheet (p : Painter) : Nat × Array Stage × Array Vertex × Array Face :=
  (p.config.stageLimit, p.stages, p.vertices, p.faces)

/-- What the painter keeps of its quads is that of the runs. -/
structure Batched (p : Painter) (runs : List Run) : Prop where
  stages : p.stages.toList = Run.stagesFrom 0 runs
  vertices : p.vertices.toList = (Run.allQuads runs).flatMap Drawn.corners
  faces : p.faces.toList = runs.flatMap Run.faces
  texture : ∀ run ∈ runs, ∀ quad ∈ run.quads, quad.texture = run.texture
  fits : ∀ run ∈ runs, Quad.vertexCount * run.quads.length ≤ p.config.stageLimit
  /-- Every run has room for a quad. -/
  room : Quad.vertexCount ≤ p.config.stageLimit
  /-- No run is longer than 16-bit indices reach. -/
  limit : p.config.stageLimit ≤ PainterConfig.largestStageLimit

/-- A painter with another stage, which has so many quads before it and none of its own. -/
def opened (p : Painter) (before : Nat) (texture : Option Texture) : Painter :=
  { p with stages := p.stages.push ((Run.start texture).stage before) }

/-- A painter with another quad in one of its stages. -/
def appended (p : Painter) (stage : Nat) (quad : Drawn) : Painter :=
  { p with
    vertexRoom := Batch.grownRoom p.vertexRoom (quad.corners.foldl Array.push p.vertices).size
    unsent := true
    vertices := quad.corners.foldl Array.push p.vertices
    faces := (Quad.triangles (UInt16.ofNat ((p.stages[stage]?.map (·.vertices)).getD 0))).foldl
      Array.push p.faces
    stages := p.stages.modify stage fun s ↦
      { s with vertices := s.vertices + Quad.vertexCount, faces := s.faces + Quad.faceCount } }

/-- The quad that the painter draws from given geometry, with the pen and the map of the moment. -/
def drawn (p : Painter) (texture : Option Texture) (quad : Quad) (position size : Vec) : Drawn where
  texture := texture
  corners := quad.corners p.pen p.transform.1 position size
  length_corners := rfl

theorem stageFor_eq (p : Painter) (texture : Option Texture) :
    (p.stageFor texture).2 = { p with stages := (p.stageFor texture).2.stages } := by
  unfold stageFor
  split
  · rfl
  · split <;> rfl

theorem config_stageFor (p : Painter) (texture : Option Texture) :
    (p.stageFor texture).2.config = p.config := by
  rw [stageFor_eq]

theorem transform_eq (p : Painter) :
    p.transform.2 = { p with map := p.transform.1, mapStale := false } := by
  obtain ⟨config, pen, saved, map, mapStale, vertices, faces, stages⟩ := p
  cases mapStale <;> rfl

theorem sheet_transform (p : Painter) : p.transform.2.sheet = p.sheet := by
  rw [transform_eq]
  rfl

theorem place_eq (p : Painter) (texture : Option Texture) (quad : Quad) (position size : Vec) :
    p.place texture quad position size =
      (p.transform.2.stageFor texture).2.appended (p.transform.2.stageFor texture).1
        (p.drawn texture quad position size) := by
  have hpen : (p.transform.2.stageFor texture).2.pen = p.pen := by
    rw [stageFor_eq, transform_eq]
  unfold place appended drawn
  simp only [hpen]

/-- A drawn quad changes nothing but the arrays, the stages and the map, and has to be uploaded. -/
theorem exists_place_eq (p : Painter) (texture : Option Texture) (quad : Quad) (position size : Vec) :
    ∃ map mapStale vertexRoom vertices faces stages, p.place texture quad position size =
      { p with map, mapStale, vertexRoom, vertices, faces, stages, unsent := true } := by
  rw [place_eq, appended, stageFor_eq, transform_eq]
  exact ⟨_, _, _, _, _, _, rfl⟩

variable {p q : Painter} {runs : List Run}

theorem batched_ofConfig (config : PainterConfig) : (ofConfig config).Batched [] where
  stages := rfl
  vertices := rfl
  faces := rfl
  texture := by simp
  fits := by simp
  room := Nat.le_max_left _ _
  limit := by
    change max Quad.vertexCount (min config.stageLimit PainterConfig.largestStageLimit) ≤ _
    exact Nat.max_le.mpr ⟨by decide, Nat.min_le_right _ _⟩

namespace Batched

/-- The runs depend on nothing but what is kept of the quads. -/
theorem congr (h : p.Batched runs) (hsheet : q.sheet = p.sheet) : q.Batched runs := by
  simp only [sheet, Prod.mk.injEq] at hsheet
  obtain ⟨hlimit, hstages, hvertices, hfaces⟩ := hsheet
  constructor
  · rw [hstages, h.stages]
  · rw [hvertices, h.vertices]
  · rw [hfaces, h.faces]
  · exact h.texture
  · rw [hlimit]
    exact h.fits
  · rw [hlimit]
    exact h.room
  · rw [hlimit]
    exact h.limit

theorem clear (h : p.Batched runs) : p.clear.Batched [] where
  stages := rfl
  vertices := rfl
  faces := rfl
  texture := by simp
  fits := by simp
  room := h.room
  limit := h.limit

/-! ## Opening stages -/

/-- A stage without quads begins where the last stage ends. -/
theorem opened (h : p.Batched runs) (texture : Option Texture) :
    (p.opened (Run.allQuads runs).length texture).Batched (runs ++ [Run.start texture]) where
  stages := by simp [Painter.opened, h.stages, Run.stagesFrom_concat]
  vertices := by simp [Painter.opened, h.vertices, Run.allQuads_concat, Run.start]
  faces := by simp [Painter.opened, h.faces, Run.faces, Run.facesFrom, Run.start]
  texture := by
    rw [List.forall_mem_append]
    exact ⟨h.texture, by simp [Run.start]⟩
  fits := by
    rw [List.forall_mem_append]
    exact ⟨h.fits, by simp [Run.start]⟩
  room := h.room
  limit := h.limit

theorem size_stages (h : p.Batched runs) : p.stages.size = runs.length := by
  rw [← Array.length_toList, h.stages, Run.length_stagesFrom]

theorem back?_stages {front : List Run} {last : Run} (h : p.Batched (front ++ [last])) :
    p.stages.back? = some (last.stage (Run.allQuads front).length) := by
  rw [← Array.getLast?_toList, h.stages, Run.stagesFrom_concat, List.getLast?_concat]

/-- A last run with the right texture and with room for a quad keeps its stage. -/
theorem stageFor_of_fits {front : List Run} {last : Run} (h : p.Batched (front ++ [last]))
    (hroom : Quad.vertexCount * last.quads.length + Quad.vertexCount ≤ p.config.stageLimit) :
    p.stageFor last.texture = (front.length, p) := by
  have hcount : p.stages.size - 1 = front.length := by
    rw [h.size_stages, List.length_append]
    rfl
  simp only [Painter.stageFor, h.back?_stages, ← hcount]
  exact if_pos ⟨rfl, hroom⟩

/-- If the last run has another texture or no room, a stage is opened. -/
theorem stageFor_of_full (h : p.Batched runs) {texture : Option Texture}
    (hfull : ∀ front last, runs = front ++ [last] → ¬ (last.texture = texture ∧
      Quad.vertexCount * last.quads.length + Quad.vertexCount ≤ p.config.stageLimit)) :
    p.stageFor texture = (runs.length, p.opened (Run.allQuads runs).length texture) := by
  rw [← h.size_stages]
  rcases List.eq_nil_or_concat runs with hruns | ⟨front, last, hruns⟩
  · subst hruns
    have hempty : p.stages = #[] := Array.toList_eq_nil_iff.mp h.stages
    simp [Painter.stageFor, Painter.opened, hempty, Run.stage, Run.start, Run.allQuads]
  · rw [List.concat_eq_append] at hruns
    subst hruns
    simp only [Painter.stageFor, h.back?_stages]
    apply (if_neg (hfull front last rfl)).trans
    simp [Painter.opened, Run.stage, Run.start, Run.allQuads_concat, Nat.mul_add]

/-- The stage for the next quad belongs to a last run with the right texture and with room for it. That
run is the last one or a new one without quads. -/
theorem stageFor (h : p.Batched runs) (texture : Option Texture) :
    ∃ front last, (p.stageFor texture).2.Batched (front ++ [last]) ∧
      (p.stageFor texture).1 = front.length ∧ last.texture = texture ∧
      Quad.vertexCount * last.quads.length + Quad.vertexCount ≤ p.config.stageLimit ∧
      Run.Readied p.config.stageLimit texture runs (front ++ [last]) := by
  by_cases hfits : ∃ front last, runs = front ++ [last] ∧ last.texture = texture ∧
      Quad.vertexCount * last.quads.length + Quad.vertexCount ≤ p.config.stageLimit
  · obtain ⟨front, last, rfl, rfl, hroom⟩ := hfits
    rw [h.stageFor_of_fits hroom]
    exact ⟨front, last, h, rfl, rfl, hroom, .same⟩
  · have hopened : p.stageFor texture = (runs.length, p.opened (Run.allQuads runs).length texture) := by
      apply h.stageFor_of_full
      intro front last hruns hlast
      exact hfits ⟨front, last, hruns, hlast⟩
    have hroom : Quad.vertexCount * (Run.start texture).quads.length + Quad.vertexCount ≤
        p.config.stageLimit := by
      simpa [Run.start] using h.room
    rw [hopened]
    refine ⟨runs, Run.start texture, h.opened texture, rfl, rfl, hroom, .opened ?_⟩
    intro last hlast htexture
    obtain ⟨front, hruns⟩ := List.getLast?_eq_some_iff.mp hlast
    exact Nat.lt_of_not_le fun hle ↦ hfits ⟨front, last, hruns, htexture, hle⟩

/-- The last run grows by a quad with its texture for which it has room. -/
theorem appended {front : List Run} {last : Run} (h : p.Batched (front ++ [last])) {quad : Drawn}
    (htexture : quad.texture = last.texture)
    (hroom : Quad.vertexCount * last.quads.length + Quad.vertexCount ≤ p.config.stageLimit) :
    (p.appended front.length quad).Batched (front ++ [last.append quad]) := by
  have hstages : p.stages.toList = Run.stagesFrom 0 front ++ [last.stage (Run.allQuads front).length] := by
    rw [h.stages, Run.stagesFrom_concat]
  have hlast : p.stages[front.length]? = some (last.stage (Run.allQuads front).length) := by
    rw [← Array.getElem?_toList, hstages, List.getElem?_append_right (by simp)]
    simp
  constructor
  · rw [Run.stagesFrom_concat]
    change (p.stages.modify front.length _).toList = _
    rw [Array.toList_modify, hstages, List.modify_eq_take_cons_drop (by simp)]
    simp [Run.stage, Run.append, Nat.mul_add]
  · change (quad.corners.foldl Array.push p.vertices).toList = _
    simp [h.vertices, Run.allQuads_concat, Run.append]
  · change ((Quad.triangles _).foldl Array.push p.faces).toList = _
    rw [hlast]
    simp [h.faces, Run.faces, Run.append, Run.facesFrom_append, Run.facesFrom, Run.stage]
  · have htextures := List.forall_mem_append.mp h.texture
    rw [List.forall_mem_append, List.forall_mem_singleton]
    refine ⟨htextures.1, List.forall_mem_append.mpr ⟨htextures.2 last (by simp), ?_⟩⟩
    exact List.forall_mem_singleton.mpr htexture
  · have hfits := List.forall_mem_append.mp h.fits
    rw [List.forall_mem_append, List.forall_mem_singleton]
    refine ⟨hfits.1, ?_⟩
    calc Quad.vertexCount * (last.append quad).quads.length
        = Quad.vertexCount * last.quads.length + Quad.vertexCount := by simp [Run.append, Nat.mul_add]
      _ ≤ p.config.stageLimit := hroom
  · exact h.room
  · exact h.limit

/-- A drawn quad goes to the end of a last run with its texture and with room for it. -/
theorem place (h : p.Batched runs) (texture : Option Texture) (quad : Quad) (position size : Vec) :
    ∃ front last, Run.Readied p.config.stageLimit texture runs (front ++ [last]) ∧ last.texture = texture ∧
      Quad.vertexCount * last.quads.length + Quad.vertexCount ≤ p.config.stageLimit ∧
      (p.place texture quad position size).Batched
        (front ++ [last.append (p.drawn texture quad position size)]) := by
  have hlimit : p.transform.2.config = p.config := by
    rw [transform_eq]
  have hmapped : p.transform.2.Batched runs := h.congr (sheet_transform p)
  obtain ⟨front, last, hbatched, hindex, htexture, hroom, hreadied⟩ := hmapped.stageFor texture
  rw [hlimit] at hroom hreadied
  refine ⟨front, last, hreadied, htexture, hroom, ?_⟩
  rw [place_eq, hindex]
  apply hbatched.appended htexture.symm
  rw [config_stageFor, hlimit]
  exact hroom

end Batched

end Painter

end RetainedUi
