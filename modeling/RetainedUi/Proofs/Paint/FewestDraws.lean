import RetainedUi.Proofs.Paint.Pieces
import RetainedUi.Proofs.Paint.Tiling

/-!
# As few draws as possible

If a painter is left to draw quads and nobody opens stages on it, the stages are as few as they can be: the
textures of the quads, in the order of drawing, are cut into maximal runs of equal textures and each of these
into pieces of as many quads as a stage has room for. So a flush needs a draw for each piece.

Fewer draws would not do. A device that shows the same triangles in the same order does it by draws that each
show triangles of one texture, whatever the arrays are and however the triangles are divided among the draws, even
if the two triangles of a quad come from different draws. As long as no draw takes more indices than those of the
quads of a full stage, there are at least as many draws as pieces.
-/

namespace RetainedUi

namespace DeviceCall

variable {vertices : List Vertex} {indices : List UInt16} {texture : Option Texture} {shown : List Triangle}
  {calls : List DeviceCall} {quads : Nat}

/-- No draw takes more indices than those of so many quads. -/
def Within (quads : Nat) (calls : List DeviceCall) : Prop :=
  ∀ firstIndex count base, draw firstIndex count base ∈ calls → count ≤ 6 * quads

theorem map_texture_assemble {corners : List Vertex} (h : assemble texture corners = some shown) :
    shown.map Triangle.texture = List.replicate shown.length texture ∧ corners.length = 3 * shown.length := by
  induction corners using assemble.induct generalizing shown with
  | case1 =>
    cases h
    exact ⟨rfl, rfl⟩
  | case2 first second third rest ih =>
    obtain ⟨shown, hrest, rfl⟩ := Option.map_eq_some_iff.mp h
    obtain ⟨htextures, hlength⟩ := ih hrest
    refine ⟨?_, ?_⟩
    · rw [List.map_cons, htextures, List.length_cons, List.replicate_succ]
    · simp only [List.length_cons, hlength]
      omega
  | case3 corners hnil hcons =>
    rw [assemble] at h
    · cases h
    · exact hnil
    · exact hcons

theorem length_of_mapM_eq_some {α β : Type} {f : α → Option β} {as : List α} {bs : List β}
    (h : as.mapM f = some bs) : bs.length = as.length := by
  induction as generalizing bs with
  | nil =>
    cases h
    rfl
  | cons a as ih =>
    rw [List.mapM_cons] at h
    obtain ⟨b, -, h⟩ := Option.bind_eq_some_iff.mp h
    obtain ⟨rest, hrest, h⟩ := Option.bind_eq_some_iff.mp h
    cases h
    rw [List.length_cons, ih hrest, List.length_cons]

/-- A draw shows triangles of one texture, one for each three indices. -/
theorem map_texture_readDraw {firstIndex count : Nat} {base : Int}
    (h : readDraw vertices indices texture firstIndex count base = some shown) :
    shown.map Triangle.texture = List.replicate shown.length texture ∧ count = 3 * shown.length := by
  unfold readDraw at h
  split at h
  case isTrue hbound =>
    obtain ⟨corners, hcorners, hshown⟩ := Option.bind_eq_some_iff.mp h
    obtain ⟨htextures, hlength⟩ := map_texture_assemble hshown
    refine ⟨htextures, ?_⟩
    rw [← hlength, length_of_mapM_eq_some hcorners, List.length_take, List.length_drop]
    omega
  case isFalse => cases h

/-- What is shown is divided among the draws. -/
theorem exists_segments (hread : read vertices indices texture calls = some shown) (hwithin : Within quads calls) :
    ∃ segments : List (List (Option Texture)), segments.flatten = shown.map Triangle.texture ∧
      segments.length = calls.countP isDraw ∧ ∀ segment ∈ segments, segment.length ≤ 2 * quads ∧
        ∃ texture, segment = List.replicate segment.length texture := by
  induction calls generalizing texture shown with
  | nil =>
    cases hread
    exact ⟨[], rfl, rfl, by simp⟩
  | cons call calls ih =>
    have hrest : Within quads calls := fun firstIndex count base hcall ↦
      hwithin firstIndex count base (List.mem_cons_of_mem call hcall)
    cases call with
    | draw firstIndex count base =>
      obtain ⟨first, hfirst, hread⟩ := Option.bind_eq_some_iff.mp hread
      obtain ⟨others, hothers, rfl⟩ := Option.map_eq_some_iff.mp hread
      obtain ⟨segments, hflatten, hlength, hsegments⟩ := ih hothers hrest
      obtain ⟨htextures, hcount⟩ := map_texture_readDraw hfirst
      have hbound := hwithin firstIndex count base List.mem_cons_self
      refine ⟨first.map Triangle.texture :: segments, ?_, ?_, ?_⟩
      · rw [List.flatten_cons, hflatten, List.map_append]
      · rw [List.length_cons, hlength, List.countP_cons_of_pos rfl]
      · rw [List.forall_mem_cons, List.length_map]
        exact ⟨⟨by omega, texture, htextures⟩, hsegments⟩
    | bindTexture =>
      rw [List.countP_cons_of_neg (by simp [isDraw])]
      exact ih hread hrest
    | allocate | upload | createTexture | releaseTexture | bind | clear | swap =>
      rw [List.countP_cons_of_neg (by simp [isDraw])]
      exact ih hread hrest

/-- Transfers do not draw. -/
theorem countP_isDraw_of_isTransfer (h : ∀ call ∈ calls, call.isTransfer = true) : calls.countP isDraw = 0 := by
  rw [List.countP_eq_zero]
  intro call hcall hdraw
  rw [not_isDraw_of_isTransfer (h call hcall)] at hdraw
  cases hdraw

/-- There is a draw for each stage, unless the stage has no faces. -/
theorem countP_isDraw_ofStages {stages : Array Stage} (hstages : ∀ s ∈ stages, s.faces ≠ 0)
    (bound : Option Texture) : (ofStages stages bound).countP isDraw = stages.size := by
  have hflat : ∀ stages : List Stage, (∀ s ∈ stages, s.faces ≠ 0) →
      (stages.flatMap ofStage).countP isDraw = stages.length := by
    intro stages hstages
    induction stages with
    | nil => rfl
    | cons s stages ih =>
      rw [List.forall_mem_cons] at hstages
      rw [List.flatMap_cons, List.countP_append, ih hstages.2, ofStage, if_neg hstages.1, List.length_cons,
        Nat.add_comm]
      rfl
  unfold ofStages
  split
  case isTrue hempty => rw [Array.isEmpty_iff.mp hempty]; rfl
  case isFalse =>
    rw [List.countP_append, hflat stages.toList fun s hs ↦ hstages s (Array.mem_toList_iff.mp hs),
      Array.length_toList]
    rfl

end DeviceCall

/-! ## Packed runs -/

namespace Run

variable {limit : Nat} {texture : Option Texture} {runs front : List Run} {last : Run}

/-- No run is there without need: each one has quads, and if the next one has the same texture, there is no room for
another quad. -/
structure Packed (limit : Nat) (runs : List Run) : Prop where
  drawn : ∀ run ∈ runs, run.quads ≠ []
  full : runs.IsChain fun run next ↦
    run.texture = next.texture → limit < Quad.vertexCount * run.quads.length + Quad.vertexCount

namespace Packed

theorem nil : Packed limit [] := ⟨by simp, .nil⟩

/-- The runs before the one for the next quad are packed. If the last of them has the texture of the quad, there is
no room for it. -/
theorem of_readied (h : Packed limit runs) (hreadied : Readied limit texture runs (front ++ [last]))
    (htexture : last.texture = texture) : Packed limit front ∧ ∀ run ∈ front.getLast?,
      run.texture = texture → limit < Quad.vertexCount * run.quads.length + Quad.vertexCount := by
  generalize hothers : front ++ [last] = others at hreadied
  cases hreadied with
  | same =>
    subst hothers
    obtain ⟨hfront, -, hborder⟩ := List.isChain_append.mp h.full
    refine ⟨⟨fun run hrun ↦ h.drawn run (List.mem_append_left _ hrun), hfront⟩, ?_⟩
    rw [← htexture]
    exact fun run hrun ↦ hborder run hrun last rfl
  | opened hfull =>
    obtain ⟨rfl, -⟩ := List.append_inj' hothers rfl
    exact ⟨h, hfull⟩

/-- The runs stay packed if a quad is drawn. -/
theorem append (h : Packed limit runs) (hreadied : Readied limit texture runs (front ++ [last]))
    (htexture : last.texture = texture) (quad : Drawn) : Packed limit (front ++ [last.append quad]) := by
  obtain ⟨hfront, hborder⟩ := h.of_readied hreadied htexture
  constructor
  · rw [List.forall_mem_append, List.forall_mem_singleton]
    exact ⟨hfront.drawn, List.append_ne_nil_of_right_ne_nil _ (List.cons_ne_nil _ _)⟩
  · refine List.isChain_append.mpr ⟨hfront.full, .singleton _, ?_⟩
    intro run hrun next hnext hsame
    cases hnext
    exact hborder run hrun (hsame.trans htexture)

/-- Packed runs are the pieces of their textures, whatever is counted as long as it is the same for each quad. -/
theorem cut_eq (h : Packed limit runs)
    (hfits : ∀ run ∈ runs, Quad.vertexCount * run.quads.length ≤ limit) {each : Nat} (heach : 0 < each) :
    Pieces.cut (each * (limit / Quad.vertexCount))
        (runs.flatMap fun run ↦ List.replicate (each * run.quads.length) run.texture) =
      runs.map fun run ↦ (some run.texture, each * run.quads.length) := by
  have hle : ∀ run ∈ runs, run.quads.length ≤ limit / Quad.vertexCount := fun run hrun ↦
    (Nat.le_div_iff_mul_le (by decide)).mpr (Nat.mul_comm _ _ ▸ hfits run hrun)
  have hpieces : ∀ piece ∈ runs.map fun run ↦ (run.texture, each * run.quads.length),
      0 < piece.2 ∧ piece.2 ≤ each * (limit / Quad.vertexCount) := by
    rw [List.forall_mem_map]
    intro run hrun
    exact ⟨Nat.mul_pos heach (List.length_pos_iff.mpr (h.drawn run hrun)), Nat.mul_le_mul_left each (hle run hrun)⟩
  have hcut := Pieces.cut_flatMap_replicate hpieces ?_
  · rwa [List.flatMap_map, List.map_map] at hcut
  · -- A run before one with the same texture has no room for a quad, so it is as long as a run can be.
    rw [List.isChain_map]
    refine h.full.imp_of_mem_imp fun run next hrun _ hfull hsame ↦ congrArg (each * ·) ?_
    have hroom := hfull hsame
    refine Nat.le_antisymm (hle run hrun) (Nat.le_of_lt_succ ?_)
    rw [Nat.div_lt_iff_lt_mul (by decide), Nat.mul_comm]
    exact hroom

end Packed

/-- The textures of the quads, each as often as is wanted, are those of the runs. -/
theorem flatMap_replicate_texture {runs : List Run}
    (htexture : ∀ run ∈ runs, ∀ quad ∈ run.quads, quad.texture = run.texture) (each : Nat) :
    ((allQuads runs).flatMap fun quad ↦ List.replicate each quad.texture) =
      runs.flatMap fun run ↦ List.replicate (each * run.quads.length) run.texture := by
  have hquads : ∀ (texture : Option Texture) (quads : List Drawn), (∀ quad ∈ quads, quad.texture = texture) →
      (quads.flatMap fun quad ↦ List.replicate each quad.texture) =
        List.replicate (each * quads.length) texture := by
    intro texture quads hsame
    induction quads with
    | nil => rfl
    | cons quad quads ih =>
      rw [List.forall_mem_cons] at hsame
      rw [List.flatMap_cons, ih hsame.2, hsame.1, List.replicate_append_replicate, List.length_cons, Nat.mul_succ,
        Nat.add_comm]
  rw [allQuads, List.flatMap_assoc]
  exact List.flatMap_congr fun run hrun ↦ hquads run.texture run.quads (htexture run hrun)

/-! ## Draws of packed runs -/

/-- Whatever shows the quads of packed runs needs a draw for each run. -/
theorem Packed.length_le_countP_isDraw (h : Packed limit runs) (hroom : Quad.vertexCount ≤ limit)
    (hfits : ∀ run ∈ runs, Quad.vertexCount * run.quads.length ≤ limit)
    (htexture : ∀ run ∈ runs, ∀ quad ∈ run.quads, quad.texture = run.texture) {vertices : List Vertex}
    {indices : List UInt16} {bound : Option Texture} {calls : List DeviceCall}
    (hread : DeviceCall.read vertices indices bound calls = some ((allQuads runs).flatMap Drawn.triangles))
    (hwithin : DeviceCall.Within (limit / Quad.vertexCount) calls) :
    runs.length ≤ calls.countP DeviceCall.isDraw := by
  obtain ⟨segments, hflatten, hlength, hsegments⟩ := DeviceCall.exists_segments hread hwithin
  -- Each quad is two triangles with its texture.
  have htextures : ((allQuads runs).flatMap Drawn.triangles).map Triangle.texture =
      runs.flatMap fun run ↦ List.replicate (2 * run.quads.length) run.texture := by
    rw [List.map_flatMap]
    exact flatMap_replicate_texture htexture 2
  have hsize : 0 < 2 * (limit / Quad.vertexCount) := Nat.mul_pos Nat.two_pos (Nat.div_pos hroom (by decide))
  calc runs.length
      = (Pieces.cut (2 * (limit / Quad.vertexCount)) segments.flatten).length := by
        rw [hflatten, htextures, h.cut_eq hfits Nat.two_pos, List.length_map]
    _ ≤ segments.length := Pieces.length_cut_flatten_le hsize hsegments
    _ = calls.countP DeviceCall.isDraw := hlength

/-- What a device gets to know of the stages of runs. -/
theorem map_stagesFrom (before : Nat) (runs : List Run) :
    (stagesFrom before runs).map (fun s ↦ (some s.texture, s.vertices, s.faces)) =
      runs.map fun run ↦
        (some run.texture, Quad.vertexCount * run.quads.length, Quad.faceCount * run.quads.length) := by
  induction runs generalizing before with
  | nil => rfl
  | cons run runs ih =>
    rw [stagesFrom, List.map_cons, ih]
    rfl

end Run

/-! ## Painters that are left to themselves -/

namespace Painter

variable {p : Painter} {runs : List Run}

/-- The runs stay packed unless stages are opened from outside. -/
theorem Batched.after_of_leavesStages (h : p.Batched runs) (hpacked : Run.Packed p.config.stageLimit runs)
    {call : PaintCall} (hcall : call.leavesStages = true) :
    ∃ others, (p.after call).Batched others ∧ Run.allQuads others = p.quadsAfter (Run.allQuads runs) call ∧
      Run.Packed p.config.stageLimit others := by
  rcases h.after_cases call with ⟨hbatched, hquads⟩ |
    ⟨texture, front, last, quad, hbatched, hreadied, htexture, hquads⟩ | ⟨hopened, -⟩
  · exact ⟨runs, hbatched, hquads.symm, hpacked⟩
  · exact ⟨_, hbatched, (hreadied.allQuads_append quad).trans hquads.symm, hpacked.append hreadied htexture quad⟩
  · rw [hcall] at hopened
    cases hopened

theorem Batched.trace_of_leavesStages (h : p.Batched runs) (hpacked : Run.Packed p.config.stageLimit runs)
    {calls : List PaintCall} (hcalls : ∀ call ∈ calls, call.leavesStages = true) :
    ∃ others, (p.afterAll calls).Batched others ∧
      Run.allQuads others = (Painter.trace (p, Run.allQuads runs) calls).2 ∧ Run.Packed p.config.stageLimit others := by
  induction calls generalizing p runs with
  | nil => exact ⟨runs, h, rfl, hpacked⟩
  | cons call calls ih =>
    rw [List.forall_mem_cons] at hcalls
    obtain ⟨others, hbatched, hquads, hothers⟩ := h.after_of_leavesStages hpacked hcalls.1
    rw [← config_after p call] at hothers ⊢
    have hrest := ih hbatched hothers hcalls.2
    rw [hquads] at hrest
    exact hrest

theorem map_texture_quadsAfter (p : Painter) (quads : List Drawn) {call : PaintCall}
    (hcall : call.leavesStages = true) :
    (p.quadsAfter quads call).map Drawn.texture = quads.map Drawn.texture ++ call.texture?.toList := by
  cases call with
  | drawQuad texture quad =>
    simp only [quadsAfter, PaintCall.texture?]
    cases quad.geometry with
    | error fault => exact (List.append_nil _).symm
    | ok geometry => exact List.map_append
  | stageFor | clear => cases hcall
  | _ => exact (List.append_nil _).symm

/-- The quads have the textures with which they were drawn, in the order of drawing. -/
theorem map_texture_trace (p : Painter) (quads : List Drawn) {calls : List PaintCall}
    (hcalls : ∀ call ∈ calls, call.leavesStages = true) :
    (trace (p, quads) calls).2.map Drawn.texture =
      quads.map Drawn.texture ++ calls.filterMap PaintCall.texture? := by
  induction calls generalizing p quads with
  | nil => exact (List.append_nil _).symm
  | cons call calls ih =>
    rw [List.forall_mem_cons] at hcalls
    have hrest := ih (p.after call) (p.quadsAfter quads call) hcalls.2
    rw [map_texture_quadsAfter p quads hcalls.1, List.append_assoc] at hrest
    rw [List.filterMap_cons]
    cases htexture : call.texture? with
    | none =>
      rw [htexture] at hrest
      exact hrest
    | some texture =>
      rw [htexture] at hrest
      exact hrest

/-- A new or a cleared painter has no quads. -/
theorem trace_of_clear {before : List PaintCall} (hbefore : before = [] ∨ ∃ front, before = front ++ [.clear])
    (config : PainterConfig) : ∃ p : Painter, trace (ofConfig config, []) before = (p, []) ∧ p.Batched [] ∧
      p.config.stageLimit = config.clampedLimit := by
  rcases hbefore with rfl | ⟨front, rfl⟩
  · exact ⟨_, rfl, batched_ofConfig config, rfl⟩
  · obtain ⟨runs, hbatched, hlimit⟩ := exists_batched config front
    refine ⟨((ofConfig config).afterAll front).clear, ?_, hbatched.clear, hlimit⟩
    rw [← trace_fst _ []]
    exact List.foldl_append

/-- A new or cleared painter has packed runs after calls that leave the stages to the quads. -/
theorem exists_packed (config : PainterConfig) {before calls : List PaintCall}
    (hbefore : before = [] ∨ ∃ front, before = front ++ [.clear])
    (hcalls : ∀ call ∈ calls, call.leavesStages = true) :
    ∃ runs, (trace (ofConfig config, []) (before ++ calls)).1.Batched runs ∧
      Run.allQuads runs = (trace (ofConfig config, []) (before ++ calls)).2 ∧
      (trace (ofConfig config, []) (before ++ calls)).1.config.stageLimit = config.clampedLimit ∧
      Run.Packed config.clampedLimit runs ∧
      (Run.allQuads runs).map Drawn.texture = calls.filterMap PaintCall.texture? := by
  obtain ⟨start, hstart, hempty, hlimit⟩ := trace_of_clear hbefore config
  have htrace : trace (ofConfig config, []) (before ++ calls) = trace (start, []) calls := by
    rw [← hstart]
    exact List.foldl_append
  obtain ⟨runs, hbatched, hquads, hpacked⟩ := hempty.trace_of_leavesStages .nil hcalls
  rw [htrace, trace_fst, config_afterAll, ← hlimit]
  refine ⟨runs, hbatched, hquads, rfl, hpacked, ?_⟩
  rw [hquads]
  exact map_texture_trace start [] hcalls

namespace Batched

/-- Each stage of packed runs has faces. -/
theorem faces_ne_zero (h : p.Batched runs) (hpacked : Run.Packed p.config.stageLimit runs) {s : Stage}
    (hs : s ∈ p.stages) : s.faces ≠ 0 := by
  obtain ⟨run, hrun, before, rfl, -⟩ := h.exists_of_mem_stages hs
  exact Nat.mul_ne_zero (by decide) (List.length_eq_zero_iff.not.mpr (hpacked.drawn run hrun))

/-- A flush of packed runs draws each of them once, or is refused. -/
theorem flush_of_packed (h : p.Batched runs) (hpacked : Run.Packed p.config.stageLimit runs) (refusal : Refusal)
    (r : Recorder) : ∃ sent, (p.flush refusal r).2.recorder.log.toList = r.log.toList ++ sent ∧
      ((p.flush refusal r).1 = .ok () ∧
          DeviceCall.read p.vertices.toList p.indices r.bound sent =
            some ((Run.allQuads runs).flatMap Drawn.triangles) ∧
          DeviceCall.Within (p.config.stageLimit / Quad.vertexCount) sent ∧
          sent.countP DeviceCall.isDraw = runs.length ∨
        ∃ fault, Submission.Refused refusal fault ∧ (p.flush refusal r).1 = .error fault ∧
          sent.countP DeviceCall.isDraw = 0) := by
  obtain ⟨transfers, htransfers, ⟨hok, hlog⟩ | ⟨fault, hrefused, herror, hlog⟩⟩ := p.flush_cases refusal r
  · refine ⟨_, hlog, .inl ⟨hok, ?_, ?_, ?_⟩⟩
    · rw [DeviceCall.read_append_of_isTransfer htransfers]
      exact h.read_ofStages r.bound
    · intro firstIndex count base hdraw
      rcases List.mem_append.mp hdraw with hdraw | hdraw
      · cases htransfers _ hdraw
      · obtain ⟨_, ⟨⟩⟩ | ⟨s, hs, -, ⟨⟩⟩ := DeviceCall.cases_of_mem_ofStages hdraw
        obtain ⟨run, hrun, before, rfl, -⟩ := h.exists_of_mem_stages hs
        have hquads : run.quads.length ≤ p.config.stageLimit / Quad.vertexCount :=
          (Nat.le_div_iff_mul_le (by decide)).mpr (Nat.mul_comm _ _ ▸ h.fits run hrun)
        change 2 * run.quads.length * 3 ≤ _
        omega
    · rw [List.countP_append, DeviceCall.countP_isDraw_of_isTransfer htransfers, Nat.zero_add,
        DeviceCall.countP_isDraw_ofStages (fun s ↦ h.faces_ne_zero hpacked), h.size_stages]
  · exact ⟨transfers, hlog, .inr ⟨fault, hrefused, herror, DeviceCall.countP_isDraw_of_isTransfer htransfers⟩⟩

end Batched

/-- The stages of a new or cleared painter on which quads are drawn, whatever else is done except that stages are
asked for: they are the pieces of the textures, with as many quads in a full one as the clamped limit has room
for. A flush draws each of them once, unless it is refused an allocation. Nothing that shows the same triangles in
the same order, by draws that are no longer than that of a full stage, gets along with fewer draws. -/
theorem stages_fewest (config : PainterConfig) (before calls : List PaintCall)
    (hbefore : before = [] ∨ ∃ front, before = front ++ [.clear])
    (hcalls : ∀ call ∈ calls, call.leavesStages = true) (refusal : Refusal) (r : Recorder) :
    let p := (trace (ofConfig config, []) (before ++ calls)).1
    let quads := (trace (ofConfig config, []) (before ++ calls)).2
    let perStage := config.clampedLimit / 4
    let pieces := Pieces.cut perStage (calls.filterMap PaintCall.texture?)
    p.stages.toList.map (fun s ↦ (some s.texture, s.vertices, s.faces)) =
        pieces.map (fun (texture, count) ↦ (texture, 4 * count, 2 * count)) ∧
      Stage.Tile (0, 0) p.stages.toList (p.vertices.size, p.faces.size) ∧
      (∃ sent, (p.flush refusal r).2.recorder.log.toList = r.log.toList ++ sent ∧
        ((p.flush refusal r).1 = .ok () ∧
            DeviceCall.read p.vertices.toList p.indices r.bound sent = some (quads.flatMap Drawn.triangles) ∧
            DeviceCall.Within perStage sent ∧ sent.countP DeviceCall.isDraw = pieces.length ∨
          ∃ fault, Submission.Refused refusal fault ∧ (p.flush refusal r).1 = .error fault ∧
            sent.countP DeviceCall.isDraw = 0)) ∧
      ∀ vertices indices bound others,
        DeviceCall.read vertices indices bound others = some (quads.flatMap Drawn.triangles) →
        DeviceCall.Within perStage others → pieces.length ≤ others.countP DeviceCall.isDraw := by
  intro p quads perStage pieces
  obtain ⟨runs, hbatched, hquads, hlimit, hpacked, htextures⟩ := exists_packed config hbefore hcalls
  change Run.allQuads runs = quads at hquads
  have hperStage : perStage = p.config.stageLimit / Quad.vertexCount := by
    rw [hlimit]
    rfl
  rw [← hlimit] at hpacked
  have hpieces : pieces = runs.map fun run ↦ (some run.texture, run.quads.length) := by
    have hcut := hpacked.cut_eq hbatched.fits Nat.one_pos
    rw [← Run.flatMap_replicate_texture hbatched.texture, ← hperStage] at hcut
    simpa only [Nat.one_mul, List.replicate_one, ← List.map_eq_flatMap, htextures] using hcut
  have hlength : pieces.length = runs.length := by
    rw [hpieces, List.length_map]
  rw [hlength, hperStage, ← hquads]
  refine ⟨?_, hbatched.tile, hbatched.flush_of_packed hpacked refusal r, ?_⟩
  · rw [hpieces, hbatched.stages, Run.map_stagesFrom, List.map_map]
    rfl
  · intro vertices indices bound others hread hwithin
    exact hpacked.length_le_countP_isDraw hbatched.room hbatched.fits hbatched.texture hread hwithin

/-- Three quads with one texture, one with none, and one more with the first texture. -/
def alternating : List PaintCall :=
  let quad (texture : Option Texture) : PaintCall := .drawQuad texture (.ofRect .zero)
  [quad (some ⟨1⟩), quad (some ⟨1⟩), .setOrigin .one, quad (some ⟨1⟩), quad none, .drawQuad none .blank,
    quad (some ⟨1⟩)]

/-- With a limit of nine vertices, two quads share a stage. Behind a clear it does not matter what was there. -/
theorem stages_fewest_alternating :
    let before : List PaintCall := [.stageFor none, .drawQuad none (.ofRect .zero), .clear]
    (∀ call ∈ alternating, call.leavesStages = true) ∧
      (trace (ofConfig ⟨64, 9⟩, []) (before ++ alternating)).1.stages.toList.map
          (fun s ↦ (some s.texture, s.vertices, s.faces)) =
        [(some (some ⟨1⟩), 8, 4), (some (some ⟨1⟩), 4, 2), (some none, 4, 2), (some (some ⟨1⟩), 4, 2)] ∧
      ((trace (ofConfig ⟨64, 9⟩, []) (before ++ alternating)).1.flush .never .fresh).2.recorder.log.toList.countP
        DeviceCall.isDraw = 4 := by
  intro before
  have hpieces : Pieces.cut (PainterConfig.clampedLimit ⟨64, 9⟩ / 4) (alternating.filterMap PaintCall.texture?) =
      [(some (some ⟨1⟩), 2), (some (some ⟨1⟩), 1), (some none, 1), (some (some ⟨1⟩), 1)] := by
    decide
  have hcalls : ∀ call ∈ alternating, call.leavesStages = true := by
    intro call hcall
    simp only [alternating, List.mem_cons, List.not_mem_nil, or_false] at hcall
    rcases hcall with rfl | rfl | rfl | rfl | rfl | rfl | rfl <;> rfl
  obtain ⟨hstages, -, ⟨sent, hlog, ⟨-, -, -, hdraws⟩ | ⟨fault, ⟨kind, reason, hrefused, -⟩, -⟩⟩, -⟩ :=
    stages_fewest ⟨64, 9⟩ before alternating (.inr ⟨before.dropLast, rfl⟩) hcalls .never .fresh
  · rw [hpieces] at hstages hdraws
    refine ⟨hcalls, hstages, ?_⟩
    rw [hlog]
    exact hdraws
  · cases hrefused

end Painter

end RetainedUi
