import RetainedUi.Proofs.Paint.Batching

/-!
# How stages divide the arrays

The stages of a painter lie in its two arrays one after the other, without gaps: the first one begins at the
start of both, each one begins where the one before it ends, and the last one ends with the arrays. A stage
holds whole quads, four vertices and two faces for each, and not more of them than the limit of the stages allows
after it was clamped. So the indices of its faces, which count from the first vertex of the stage, lead to a
vertex of the stage, and 16 bits are enough for them, up to the last corner of the last quad of a full stage.

A stage that is opened for a quad has room for it, since the clamped limit leaves room for one quad at least.
-/

namespace RetainedUi

/-- Stages follow each other without gaps, from a pair of places in the vertices and in the faces to another. -/
def Stage.Tile : Nat × Nat → List Stage → Nat × Nat → Prop
  | start, [], stop => start = stop
  | start, s :: stages, stop => s.baseVertex = start.1 ∧ s.baseFace = start.2 ∧
      Tile (start.1 + s.vertices, start.2 + s.faces) stages stop

namespace Quad

/-- The indices of the corners are the numbers that follow the number of vertices before the quad. -/
theorem toNat_indices_triangles {count : Nat}
    (hcount : count + vertexCount ≤ PainterConfig.largestStageLimit) :
    ((triangles (.ofNat count)).flatMap Face.indices).map UInt16.toNat =
      [count, count + 1, count + 2, count + 2, count + 3, count] := by
  have hfirst : (UInt16.ofNat count).toNat = count := by
    simpa using toNat_index hcount (i := 0) (by decide)
  have hsecond : (UInt16.ofNat count + 1).toNat = count + 1 := toNat_index hcount (i := 1) (by decide)
  have hthird : (UInt16.ofNat count + 2).toNat = count + 2 := toNat_index hcount (i := 2) (by decide)
  have hfourth : (UInt16.ofNat count + 3).toNat = count + 3 := toNat_index hcount (i := 3) (by decide)
  change [(UInt16.ofNat count).toNat, _, _, _, _, _] = _
  rw [hfirst, hsecond, hthird, hfourth]

end Quad

namespace Run

/-- The stages of runs lie one after the other. -/
theorem tile_stagesFrom (before : Nat) (runs : List Run) :
    Stage.Tile (Quad.vertexCount * before, Quad.faceCount * before) (stagesFrom before runs)
      (Quad.vertexCount * (before + (allQuads runs).length),
        Quad.faceCount * (before + (allQuads runs).length)) := by
  induction runs generalizing before with
  | nil => rfl
  | cons run runs ih =>
    refine ⟨rfl, rfl, ?_⟩
    have hrest := ih (before + run.quads.length)
    rw [Nat.add_assoc, ← length_allQuads_cons, Nat.mul_add, Nat.mul_add] at hrest
    exact hrest

/-- The indices of a run lead to vertices of the run. -/
theorem toNat_lt_of_mem_facesFrom {before : Nat} {quads : List Drawn}
    (hfits : Quad.vertexCount * (before + quads.length) ≤ PainterConfig.largestStageLimit) {face : Face}
    (hface : face ∈ facesFrom before quads) {index : UInt16} (hindex : index ∈ face.indices) :
    index.toNat < Quad.vertexCount * (before + quads.length) := by
  induction quads generalizing before with
  | nil => cases hface
  | cons quad quads ih =>
    have hcount : before + (quad :: quads).length = before + 1 + quads.length := by
      rw [List.length_cons]
      omega
    rw [hcount] at hfits ⊢
    rcases List.mem_append.mp hface with hface | hface
    · have hquad : Quad.vertexCount * before + Quad.vertexCount ≤ Quad.vertexCount * (before + 1 + quads.length) :=
        Nat.mul_le_mul_left Quad.vertexCount (by omega : before + 1 ≤ before + 1 + quads.length)
      have hmem : index.toNat ∈ ((Quad.triangles (.ofNat (Quad.vertexCount * before))).flatMap Face.indices).map
          UInt16.toNat :=
        List.mem_map_of_mem (List.mem_flatMap.mpr ⟨face, hface, hindex⟩)
      rw [Quad.toNat_indices_triangles (Nat.le_trans hquad hfits)] at hmem
      apply Nat.lt_of_lt_of_le _ hquad
      simp only [List.mem_cons, List.not_mem_nil, or_false] at hmem
      rw [Quad.vertexCount] at hmem ⊢
      omega
    · exact ih hfits hface

theorem length_flatMap_faces (runs : List Run) :
    (runs.flatMap faces).length = Quad.faceCount * (allQuads runs).length := by
  induction runs with
  | nil => rfl
  | cons run runs ih =>
    rw [List.flatMap_cons, List.length_append, ih, faces, length_facesFrom, ← Nat.mul_add, length_allQuads_cons]

/-- A stage of runs belongs to one of them, whose faces are found where the stage says. -/
theorem exists_of_mem_stagesFrom {before : Nat} {runs : List Run} {s : Stage} (h : s ∈ stagesFrom before runs)
    (front : List Face) (hfront : front.length = Quad.faceCount * before) :
    ∃ run ∈ runs, ∃ before', s = run.stage before' ∧
      ((front ++ runs.flatMap faces).drop s.baseFace).take s.faces = run.faces := by
  induction runs generalizing before front with
  | nil => cases h
  | cons run runs ih =>
    rw [List.flatMap_cons]
    rcases List.mem_cons.mp h with rfl | h
    · refine ⟨run, List.mem_cons_self, before, rfl, ?_⟩
      have hdrop : (front ++ (run.faces ++ runs.flatMap faces)).drop (run.stage before).baseFace =
          run.faces ++ runs.flatMap faces := List.drop_left' hfront
      rw [hdrop]
      exact List.take_left' (length_facesFrom 0 run.quads)
    · have hlength : (front ++ run.faces).length = Quad.faceCount * (before + run.quads.length) := by
        rw [List.length_append, hfront, faces, length_facesFrom, Nat.mul_add]
      obtain ⟨other, hother, before', hstage, hfaces⟩ := ih h (front ++ run.faces) hlength
      rw [List.append_assoc] at hfaces
      exact ⟨other, List.mem_cons_of_mem run hother, before', hstage, hfaces⟩

end Run

/-! ## Bytes of the arrays -/

namespace Batch

theorem size_pushScalar (bytes : ByteArray) (x : Float32) : (pushScalar bytes x).size = bytes.size + 4 := by
  simp [pushScalar, pushWord, ByteArray.size_push]

theorem size_pushVertex (bytes : ByteArray) (v : Vertex) :
    (pushVertex bytes v).size = bytes.size + vertexSize := by
  simp [pushVertex, size_pushScalar, vertexSize]

theorem size_pushFace (bytes : ByteArray) (face : Face) : (pushFace bytes face).size = bytes.size + faceSize := by
  simp [pushFace, pushIndex, ByteArray.size_push, faceSize]

theorem size_foldl {α : Type} {push : ByteArray → α → ByteArray} {count : Nat}
    (hpush : ∀ bytes a, (push bytes a).size = bytes.size + count) (as : List α) (bytes : ByteArray) :
    (as.foldl push bytes).size = bytes.size + as.length * count := by
  induction as generalizing bytes with
  | nil => simp
  | cons a as ih =>
    rw [List.foldl_cons, ih, hpush, List.length_cons, Nat.succ_mul]
    omega

theorem size_vertexBytes (vertices : Array Vertex) :
    (vertexBytes vertices).size = vertices.size * vertexSize := by
  rw [vertexBytes, ← Array.foldl_toList, size_foldl size_pushVertex, Array.length_toList]
  exact Nat.zero_add _

theorem size_faceBytes (faces : Array Face) : (faceBytes faces).size = faces.size * faceSize := by
  rw [faceBytes, ← Array.foldl_toList, size_foldl size_pushFace, Array.length_toList]
  exact Nat.zero_add _

end Batch

namespace Painter

/-! ## Painters in use -/

theorem config_after_of_isPen {call : PaintCall} (h : call.isPen = true) (p : Painter) :
    (p.after call).config = p.config := by
  obtain ⟨_, _, _, _, hafter⟩ := after_of_isPen h p
  rw [hafter]

theorem config_after (p : Painter) (call : PaintCall) : (p.after call).config = p.config := by
  cases call with
  | drawQuad texture quad =>
    rcases after_drawQuad_cases p texture quad with ⟨fault, -, hafter⟩ | ⟨position, size, -, hafter⟩
    · rw [hafter]
    · obtain ⟨_, _, _, _, _, _, hplace⟩ := exists_place_eq p texture quad position size
      rw [hafter, hplace]
  | stageFor texture => exact config_stageFor p texture
  | clear => rfl
  | flush refusal recorder =>
    obtain ⟨vertexBuffer, indexBuffer, unsent, hpainter⟩ := painter_flush p refusal recorder
    change (p.flush refusal recorder).2.painter.config = p.config
    rw [hpainter]
  | setScale | setRotation | setOrigin | setHandle | setColor | save | pop | unwind | transform =>
    exact config_after_of_isPen rfl p

theorem config_afterAll (p : Painter) (calls : List PaintCall) : (p.afterAll calls).config = p.config := by
  induction calls generalizing p with
  | nil => rfl
  | cons call calls ih => exact (ih (p.after call)).trans (config_after p call)

/-- After any calls, what a new painter keeps of its quads is that of some runs, no longer than the limit. -/
theorem exists_batched (config : PainterConfig) (calls : List PaintCall) :
    ∃ runs, ((ofConfig config).afterAll calls).Batched runs ∧
      ((ofConfig config).afterAll calls).config.stageLimit = config.clampedLimit := by
  obtain ⟨runs, hbatched, -⟩ := (batched_ofConfig config).trace calls
  rw [trace_fst] at hbatched
  exact ⟨runs, hbatched, congrArg PainterConfig.stageLimit (config_afterAll _ calls)⟩

namespace Batched

variable {p : Painter} {runs : List Run}

theorem size_vertices (h : p.Batched runs) : p.vertices.size = Quad.vertexCount * (Run.allQuads runs).length := by
  rw [← Array.length_toList, h.vertices, Run.length_corners]

theorem size_faces (h : p.Batched runs) : p.faces.size = Quad.faceCount * (Run.allQuads runs).length := by
  rw [← Array.length_toList, h.faces, Run.length_flatMap_faces]

/-- The stages lie one after the other, from the start of the arrays to their end. -/
theorem tile (h : p.Batched runs) : Stage.Tile (0, 0) p.stages.toList (p.vertices.size, p.faces.size) := by
  have htile := Run.tile_stagesFrom 0 runs
  rw [Nat.zero_add, ← h.size_vertices, ← h.size_faces, ← h.stages] at htile
  exact htile

/-- A stage is that of a run. -/
theorem exists_of_mem_stages (h : p.Batched runs) {s : Stage} (hs : s ∈ p.stages) :
    ∃ run ∈ runs, ∃ before, s = run.stage before ∧
      (p.faces.toList.drop s.baseFace).take s.faces = run.faces := by
  rw [← Array.mem_toList_iff, h.stages] at hs
  rw [h.faces]
  exact Run.exists_of_mem_stagesFrom hs [] rfl

/-- The end of the last stage is the end of the arrays. -/
theorem back?_stages_end (h : p.Batched runs) :
    (p.stages.back?.map fun s ↦ s.baseVertex + s.vertices).getD 0 = p.vertices.size ∧
      (p.stages.back?.map fun s ↦ s.baseFace + s.faces).getD 0 = p.faces.size := by
  rw [h.size_vertices, h.size_faces]
  rcases List.eq_nil_or_concat runs with rfl | ⟨front, last, hruns⟩
  · have hempty : p.stages = #[] := Array.toList_eq_nil_iff.mp h.stages
    rw [hempty]
    exact ⟨rfl, rfl⟩
  · rw [List.concat_eq_append] at hruns
    subst hruns
    rw [h.back?_stages, Run.allQuads_concat, List.length_append, Nat.mul_add, Nat.mul_add]
    exact ⟨rfl, rfl⟩

theorem vertexDataSize_eq (h : p.Batched runs) : p.vertexDataSize = p.vertices.size * Batch.vertexSize := by
  rw [vertexDataSize, h.back?_stages_end.1]

theorem indexDataSize_eq (h : p.Batched runs) : p.indexDataSize = p.faces.size * Batch.faceSize := by
  rw [indexDataSize, h.back?_stages_end.2]

/-- The stage for the next quad has room for it. -/
theorem stageFor_usable (h : p.Batched runs) (texture : Option Texture) :
    ∃ s, (p.stageFor texture).2.stages[(p.stageFor texture).1]? = some s ∧ s.texture = texture ∧
      s.vertices + Quad.vertexCount ≤ p.config.stageLimit := by
  obtain ⟨front, last, hbatched, hindex, htexture, hroom, -⟩ := h.stageFor texture
  refine ⟨last.stage (Run.allQuads front).length, ?_, htexture, hroom⟩
  have hcount : front.length = (p.stageFor texture).2.stages.size - 1 := by
    rw [hbatched.size_stages, List.length_append]
    rfl
  rw [hindex, hcount, ← Array.back?_eq_getElem?]
  exact hbatched.back?_stages

/-- A quad is put into the last stage, which has its texture and has had room for it, and its indices count on
from the vertices that were there. -/
theorem place_last (h : p.Batched runs) (texture : Option Texture) (quad : Quad) (position size : Vec) :
    ∃ s : Stage, s.texture = texture ∧ s.vertices + Quad.vertexCount ≤ p.config.stageLimit ∧
      (p.place texture quad position size).stages.back? = some { s with
        vertices := s.vertices + Quad.vertexCount, faces := s.faces + Quad.faceCount } ∧
      (p.place texture quad position size).indices.map UInt16.toNat = p.indices.map UInt16.toNat ++
        [s.vertices, s.vertices + 1, s.vertices + 2, s.vertices + 2, s.vertices + 3, s.vertices] := by
  obtain ⟨front, last, hreadied, htexture, hroom, hbatched⟩ := h.place texture quad position size
  refine ⟨last.stage (Run.allQuads front).length, htexture, hroom, ?_, ?_⟩
  · rw [hbatched.back?_stages]
    simp [Run.stage, Run.append, Nat.mul_add]
  · have hquad := Quad.toNat_indices_triangles (Nat.le_trans hroom h.limit)
    rw [indices, indices, hbatched.faces, h.faces, ← hreadied.faces_eq]
    simp only [List.flatMap_append, List.flatMap_singleton, Run.faces, Run.append, Run.facesFrom_append, Run.facesFrom,
      List.append_nil, List.map_append, Nat.zero_add, List.append_assoc]
    rw [hquad]
    rfl

end Batched

/-- The layout of the stages, for every configuration and after any calls. The stages lie in the arrays one after
the other from the start to the end. Each of them holds whole quads, not more than the clamped limit and 16-bit
indices allow, and its indices lead to its own vertices. The stage that is given for a texture has that texture and
room for a quad; a quad that is drawn is put into such a stage, which is the last one then, and its indices are
the numbers of its corners, not cut to 16 bits. The sizes that the painter tells are those of the data. -/
theorem stages_tile (config : PainterConfig) (calls : List PaintCall) :
    let p := (ofConfig config).afterAll calls
    Stage.Tile (0, 0) p.stages.toList (p.vertices.size, p.faces.size) ∧
      (∀ s ∈ p.stages, (∃ quads, s.vertices = 4 * quads ∧ s.faces = 2 * quads) ∧
        s.vertices ≤ config.clampedLimit ∧ s.vertices ≤ 65536 ∧
        ∀ face ∈ (p.faces.toList.drop s.baseFace).take s.faces, ∀ index ∈ face.indices,
          index.toNat < s.vertices) ∧
      (∀ texture, ∃ s, (p.stageFor texture).2.stages[(p.stageFor texture).1]? = some s ∧
        s.texture = texture ∧ s.vertices + 4 ≤ config.clampedLimit) ∧
      (∀ texture quad position size, quad.geometry = .ok (position, size) →
        ∃ s : Stage, s.texture = texture ∧ s.vertices + 4 ≤ config.clampedLimit ∧
          (p.after (.drawQuad texture quad)).stages.back? =
            some { s with vertices := s.vertices + 4, faces := s.faces + 2 } ∧
          (p.after (.drawQuad texture quad)).indices.map UInt16.toNat = p.indices.map UInt16.toNat ++
            [s.vertices, s.vertices + 1, s.vertices + 2, s.vertices + 2, s.vertices + 3, s.vertices]) ∧
      p.vertexDataSize = (Batch.vertexBytes p.vertices).size ∧
      (Batch.vertexBytes p.vertices).size = p.vertices.size * 32 ∧
      p.indexDataSize = (Batch.faceBytes p.faces).size ∧ (Batch.faceBytes p.faces).size = p.faces.size * 6 := by
  intro p
  obtain ⟨runs, hbatched, hlimit⟩ := exists_batched config calls
  rw [← hlimit]
  refine ⟨hbatched.tile, fun s hs ↦ ?_, hbatched.stageFor_usable, ?_, ?_, Batch.size_vertexBytes _, ?_,
    Batch.size_faceBytes _⟩
  · obtain ⟨run, hrun, before, rfl, hfaces⟩ := hbatched.exists_of_mem_stages hs
    have hfits := hbatched.fits run hrun
    refine ⟨⟨run.quads.length, rfl, rfl⟩, hfits, Nat.le_trans hfits hbatched.limit, ?_⟩
    intro face hface index hindex
    rw [hfaces] at hface
    have hbound : Quad.vertexCount * (0 + run.quads.length) ≤ PainterConfig.largestStageLimit := by
      rw [Nat.zero_add]
      exact Nat.le_trans hfits hbatched.limit
    have hlt := Run.toNat_lt_of_mem_facesFrom hbound hface hindex
    rwa [Nat.zero_add] at hlt
  · intro texture quad position size hgeometry
    simp only [after, drawQuad, hgeometry]
    exact hbatched.place_last texture quad position size
  · rw [Batch.size_vertexBytes]
    exact hbatched.vertexDataSize_eq
  · rw [Batch.size_faceBytes]
    exact hbatched.indexDataSize_eq

end Painter

end RetainedUi
