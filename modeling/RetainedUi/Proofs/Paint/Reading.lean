import RetainedUi.Paint.Flush
import RetainedUi.Proofs.Paint.Runs

/-!
# Reading the calls of a device

What a device shows is read off its calls and the two arrays: a draw takes a slice of the indices, moves
each by the base of the draw into the vertices, and shows three by three as triangles with the texture
bound last. A draw that reaches beyond one of the arrays shows nothing sensible and has no reading.

The calls for the stages of runs show the two triangles of each quad, run by run.
-/

namespace RetainedUi

/-- A triangle as a device shows it. -/
structure Triangle where
  texture : Option Texture
  first : Vertex
  second : Vertex
  third : Vertex

namespace Drawn

/-- A corner of a quad, counted from the top left clockwise. -/
def corner (quad : Drawn) (i : Fin 4) : Vertex := quad.corners.get (i.cast quad.length_corners.symm)

/-- The two triangles that make up a quad. -/
def triangles (quad : Drawn) : List Triangle :=
  [⟨quad.texture, quad.corner 0, quad.corner 1, quad.corner 2⟩,
    ⟨quad.texture, quad.corner 2, quad.corner 3, quad.corner 0⟩]

/-- The corners of the two triangles, one after the other. -/
def outline (quad : Drawn) : List Vertex :=
  [quad.corner 0, quad.corner 1, quad.corner 2, quad.corner 2, quad.corner 3, quad.corner 0]

theorem getElem?_corners (quad : Drawn) (i : Fin 4) : quad.corners[i.val]? = some (quad.corner i) := by
  have hbound : i.val < quad.corners.length := by
    rw [quad.length_corners]
    exact i.isLt
  rw [List.getElem?_eq_getElem hbound]
  rfl

end Drawn

namespace Face

/-- The indices of a face in the order in which a device takes them. -/
def indices (face : Face) : List UInt16 := [face.first, face.second, face.third]

end Face

namespace Quad

/-- A stage with room for a quad has so few vertices that the indices of the corners fit into 16 bits. -/
theorem toNat_index {count i : Nat} (hcount : count + vertexCount ≤ PainterConfig.largestStageLimit)
    (hi : i < vertexCount) : (UInt16.ofNat count + UInt16.ofNat i).toNat = count + i := by
  have hbound : count + 4 ≤ 65536 := hcount
  have hcorner : i < 4 := hi
  rw [UInt16.toNat_add, UInt16.toNat_ofNat', UInt16.toNat_ofNat']
  omega

end Quad

namespace DeviceCall

/-- The vertex to which an index leads from a base. -/
def vertexAt (vertices : List Vertex) (base : Int) (index : UInt16) : Option Vertex :=
  match base + index.toNat with
  | .ofNat place => vertices[place]?
  | .negSucc _ => none

/-- Vertices three by three. -/
def assemble (texture : Option Texture) : List Vertex → Option (List Triangle)
  | [] => some []
  | first :: second :: third :: rest => (assemble texture rest).map (⟨texture, first, second, third⟩ :: ·)
  | _ => none

/-- The triangles of a draw under a texture. -/
def readDraw (vertices : List Vertex) (indices : List UInt16) (texture : Option Texture)
    (firstIndex count : Nat) (base : Int) : Option (List Triangle) :=
  if firstIndex + count ≤ indices.length then
    (((indices.drop firstIndex).take count).mapM (vertexAt vertices base)).bind (assemble texture)
  else none

/-- The triangles that a device shows after some calls, with a texture bound at the start. -/
def read (vertices : List Vertex) (indices : List UInt16) :
    Option Texture → List DeviceCall → Option (List Triangle)
  | _, [] => some []
  | _, .bindTexture texture :: calls => read vertices indices texture calls
  | texture, .draw firstIndex count base :: calls =>
    (readDraw vertices indices texture firstIndex count base).bind fun shown ↦
      (read vertices indices texture calls).map (shown ++ ·)
  | texture, .allocate _ _ :: calls | texture, .upload _ _ _ :: calls
  | texture, .createTexture _ _ _ :: calls | texture, .releaseTexture _ :: calls
  | texture, .bind :: calls | texture, .clear _ :: calls | texture, .swap :: calls =>
    read vertices indices texture calls

variable {vertices : List Vertex} {indices : List UInt16}

theorem vertexAt_natCast (vertices : List Vertex) (base : Nat) (index : UInt16) :
    vertexAt vertices base index = vertices[base + index.toNat]? := rfl

theorem assemble_outlines {texture : Option Texture} {quads : List Drawn}
    (htexture : ∀ quad ∈ quads, quad.texture = texture) :
    assemble texture (quads.flatMap Drawn.outline) = some (quads.flatMap Drawn.triangles) := by
  induction quads with
  | nil => rfl
  | cons quad quads ih =>
    rw [List.forall_mem_cons] at htexture
    rw [List.flatMap_cons, List.flatMap_cons]
    change (assemble texture (_ :: _ :: _ :: quads.flatMap Drawn.outline)).map _ = _
    rw [assemble, ih htexture.2, Drawn.triangles, htexture.1]
    rfl

/-! ## Indices of a run -/

/-- The corners of a quad are found at the indices of its triangles, wherever the vertices of its run
start. -/
theorem mapM_vertexAt_triangles {front : List Vertex} (quad : Drawn) (rest : List Vertex)
    {before base : Nat} (hfront : front.length = base + Quad.vertexCount * before)
    (hfits : Quad.vertexCount * (before + 1) ≤ PainterConfig.largestStageLimit) :
    (((Quad.triangles (.ofNat (Quad.vertexCount * before))).flatMap Face.indices).mapM
      (vertexAt (front ++ (quad.corners ++ rest)) base)) = some quad.outline := by
  have hlookup : ∀ i : Fin 4, vertexAt (front ++ (quad.corners ++ rest)) base
      (.ofNat (Quad.vertexCount * before) + .ofNat i.val) = some (quad.corner i) := by
    intro i
    have hi := i.isLt
    have hindex : (UInt16.ofNat (Quad.vertexCount * before) + UInt16.ofNat i.val).toNat = _ :=
      Quad.toNat_index hfits hi
    have hplace : base + (Quad.vertexCount * before + i.val) = front.length + i.val := by omega
    rw [vertexAt_natCast, hindex, hplace, List.getElem?_append_right (Nat.le_add_right _ _),
      Nat.add_sub_cancel_left, List.getElem?_append_left (by rw [quad.length_corners]; exact hi)]
    exact quad.getElem?_corners i
  -- The indices of the triangles are the first one and three that follow it.
  set found := vertexAt (front ++ (quad.corners ++ rest)) base
  set first := UInt16.ofNat (Quad.vertexCount * before)
  have hfirst : found first = some (quad.corner 0) := by
    simpa using hlookup 0
  have hsecond : found (first + 1) = some (quad.corner 1) := hlookup 1
  have hthird : found (first + 2) = some (quad.corner 2) := hlookup 2
  have hfourth : found (first + 3) = some (quad.corner 3) := hlookup 3
  change List.mapM found [first, first + 1, first + 2, first + 2, first + 3, first] = _
  simp only [List.mapM_cons, List.mapM_nil, hfirst, hsecond, hthird, hfourth]
  rfl

/-- The corners of the quads of a run are found at the indices of its triangles. -/
theorem mapM_vertexAt_facesFrom {front : List Vertex} (quads : List Drawn) (rest : List Vertex)
    {before base : Nat} (hfront : front.length = base + Quad.vertexCount * before)
    (hfits : Quad.vertexCount * (before + quads.length) ≤ PainterConfig.largestStageLimit) :
    ((Run.facesFrom before quads).flatMap Face.indices).mapM
      (vertexAt (front ++ (quads.flatMap Drawn.corners ++ rest)) base) =
        some (quads.flatMap Drawn.outline) := by
  induction quads generalizing front before with
  | nil => rfl
  | cons quad quads ih =>
    rw [List.length_cons] at hfits
    have hquad := mapM_vertexAt_triangles quad (quads.flatMap Drawn.corners ++ rest) hfront
      (Nat.le_trans (Nat.mul_le_mul_left _ (by omega)) hfits)
    have hfront' : (front ++ quad.corners).length = base + Quad.vertexCount * (before + 1) := by
      rw [List.length_append, quad.length_corners, hfront, Nat.mul_succ, Nat.add_assoc]
    have hquads := ih hfront' (by rwa [Nat.add_right_comm, Nat.add_assoc])
    have hlist : front ++ ((quad :: quads).flatMap Drawn.corners ++ rest) =
        front ++ (quad.corners ++ (quads.flatMap Drawn.corners ++ rest)) := by simp
    have hlist' : front ++ (quad.corners ++ (quads.flatMap Drawn.corners ++ rest)) =
        front ++ quad.corners ++ (quads.flatMap Drawn.corners ++ rest) := by simp
    rw [Run.facesFrom, List.flatMap_append, List.mapM_append, hlist, hquad, hlist', hquads]
    rfl

/-! ## Stages -/

/-- The calls that draw a stage. -/
def ofStage (s : Stage) : List DeviceCall :=
  if s.faces = 0 then []
  else [.bindTexture s.texture, .draw (s.baseFace * 3) (s.faces * 3) s.baseVertex]

@[simp]
theorem length_flatMap_indices (faces : List Face) :
    (faces.flatMap Face.indices).length = 3 * faces.length := by
  induction faces with
  | nil => rfl
  | cons face faces ih =>
    rw [List.flatMap_cons, List.length_append, ih, List.length_cons, Nat.mul_succ, Nat.add_comm]
    rfl

/-- A stage shows the quads of its run, wherever its triangles and vertices start. -/
theorem readDraw_stage {run : Run} {before : Nat} {front rest : List Vertex}
    {frontFaces restFaces : List Face}
    (hvertices : vertices = front ++ (run.quads.flatMap Drawn.corners ++ rest))
    (hindices : indices = (frontFaces ++ (run.faces ++ restFaces)).flatMap Face.indices)
    (hfront : front.length = Quad.vertexCount * before)
    (hfrontFaces : frontFaces.length = Quad.faceCount * before)
    (htexture : ∀ quad ∈ run.quads, quad.texture = run.texture)
    (hfits : Quad.vertexCount * run.quads.length ≤ PainterConfig.largestStageLimit) :
    readDraw vertices indices run.texture ((run.stage before).baseFace * 3) ((run.stage before).faces * 3)
      (run.stage before).baseVertex = some (run.quads.flatMap Drawn.triangles) := by
  have hslice : (indices.drop ((run.stage before).baseFace * 3)).take ((run.stage before).faces * 3) =
      run.faces.flatMap Face.indices := by
    rw [hindices, List.flatMap_append, List.flatMap_append, List.drop_left', List.take_left']
    · rw [length_flatMap_indices, Run.faces, Run.length_facesFrom, Nat.mul_comm]
      rfl
    · rw [length_flatMap_indices, hfrontFaces, Nat.mul_comm]
      rfl
  have hbound : (run.stage before).baseFace * 3 + (run.stage before).faces * 3 ≤ indices.length := by
    rw [hindices, length_flatMap_indices]
    simp only [List.length_append, hfrontFaces, Run.faces, Run.length_facesFrom, Run.stage]
    omega
  have hcorners : (run.faces.flatMap Face.indices).mapM
      (vertexAt vertices (run.stage before).baseVertex) = some (run.quads.flatMap Drawn.outline) := by
    rw [hvertices]
    exact mapM_vertexAt_facesFrom run.quads rest hfront (by rwa [Nat.zero_add])
  rw [readDraw, if_pos hbound, hslice, hcorners]
  exact assemble_outlines htexture

/-- The calls for a stage show the quads of its run before everything else, with a texture bound
afterwards that does not matter to the calls behind them. -/
theorem read_ofStage {run : Run} {before : Nat} {front rest : List Vertex}
    {frontFaces restFaces : List Face}
    (hvertices : vertices = front ++ (run.quads.flatMap Drawn.corners ++ rest))
    (hindices : indices = (frontFaces ++ (run.faces ++ restFaces)).flatMap Face.indices)
    (hfront : front.length = Quad.vertexCount * before)
    (hfrontFaces : frontFaces.length = Quad.faceCount * before)
    (htexture : ∀ quad ∈ run.quads, quad.texture = run.texture)
    (hfits : Quad.vertexCount * run.quads.length ≤ PainterConfig.largestStageLimit)
    (bound : Option Texture) (calls : List DeviceCall) :
    ∃ bound', read vertices indices bound (ofStage (run.stage before) ++ calls) =
      (read vertices indices bound' calls).map (run.quads.flatMap Drawn.triangles ++ ·) := by
  by_cases hnone : run.quads = []
  · refine ⟨bound, ?_⟩
    have hempty : (run.stage before).faces = 0 := by
      rw [Run.stage, hnone]
      rfl
    rw [ofStage, if_pos hempty, hnone]
    simp
  · refine ⟨run.texture, ?_⟩
    have hlength : run.quads.length ≠ 0 := List.length_eq_zero_iff.not.mpr hnone
    have hfaces : (run.stage before).faces ≠ 0 := Nat.mul_ne_zero (by decide) hlength
    have hdraw := readDraw_stage hvertices hindices hfront hfrontFaces htexture hfits
    rw [ofStage, if_neg hfaces]
    change (readDraw vertices indices run.texture _ _ _).bind _ = _
    rw [hdraw]
    rfl

/-- The calls for the stages of runs show all quads in order. -/
theorem read_stagesFrom {runs : List Run} {before : Nat} {front rest : List Vertex}
    {frontFaces restFaces : List Face}
    (hvertices : vertices = front ++ ((Run.allQuads runs).flatMap Drawn.corners ++ rest))
    (hindices : indices = (frontFaces ++ (runs.flatMap Run.faces ++ restFaces)).flatMap Face.indices)
    (hfront : front.length = Quad.vertexCount * before)
    (hfrontFaces : frontFaces.length = Quad.faceCount * before)
    (htexture : ∀ run ∈ runs, ∀ quad ∈ run.quads, quad.texture = run.texture)
    (hfits : ∀ run ∈ runs, Quad.vertexCount * run.quads.length ≤ PainterConfig.largestStageLimit)
    (bound previous : Option Texture) :
    read vertices indices bound ((Run.stagesFrom before runs).flatMap ofStage ++ [.bindTexture previous]) =
      some ((Run.allQuads runs).flatMap Drawn.triangles) := by
  induction runs generalizing before front frontFaces bound with
  | nil => rfl
  | cons run runs ih =>
    rw [List.forall_mem_cons] at htexture hfits
    have hquads : Run.allQuads (run :: runs) = run.quads ++ Run.allQuads runs := List.flatMap_cons
    rw [hquads, List.flatMap_append, List.append_assoc] at hvertices
    rw [List.flatMap_cons, List.append_assoc] at hindices
    rw [Run.stagesFrom, List.flatMap_cons, List.append_assoc]
    obtain ⟨bound', hread⟩ := read_ofStage hvertices hindices hfront hfrontFaces htexture.1 hfits.1 bound
      ((Run.stagesFrom (before + run.quads.length) runs).flatMap ofStage ++ [.bindTexture previous])
    have hfront' : (front ++ run.quads.flatMap Drawn.corners).length =
        Quad.vertexCount * (before + run.quads.length) := by
      rw [List.length_append, hfront, Run.length_corners, Nat.mul_add]
    have hfrontFaces' : (frontFaces ++ run.faces).length =
        Quad.faceCount * (before + run.quads.length) := by
      rw [List.length_append, hfrontFaces, Run.faces, Run.length_facesFrom, Nat.mul_add]
    have hrest := ih (by rw [hvertices, List.append_assoc]) (by rw [hindices, List.append_assoc]) hfront'
      hfrontFaces' htexture.2 hfits.2 bound'
    rw [hread, hrest, hquads, List.flatMap_append]
    rfl

end DeviceCall

end RetainedUi
