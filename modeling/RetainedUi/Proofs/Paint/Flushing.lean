import RetainedUi.Proofs.Paint.Reading
import RetainedUi.Proofs.Pass

/-!
# What a flush shows

A flush first transfers the arrays, which leaves the quads and the bound texture alone and draws nothing,
and then draws the stages. So what a device shows of a flush that is not refused are the quads of the
painter, and a refused flush shows nothing.

Whatever was done to a painter since it was created, its quads are those drawn with success since it was
last cleared, each with the pen and the map of its own time.
-/

namespace RetainedUi

namespace DeviceCall

/-- Whether a call only gets data to the device. -/
def isTransfer : DeviceCall → Bool
  | .allocate _ _ | .upload _ _ _ => true
  | _ => false

/-- Whether a call draws. -/
def isDraw : DeviceCall → Bool
  | .draw _ _ _ => true
  | _ => false

/-- Whether a call belongs to a flush. -/
def isFlush : DeviceCall → Bool
  | .bindTexture _ => true
  | call => call.isTransfer || call.isDraw

/-- Transfers do not change what is shown. -/
theorem read_append_of_isTransfer {vertices : List Vertex} {indices : List UInt16}
    {bound : Option Texture} {calls others : List DeviceCall}
    (hcalls : ∀ call ∈ calls, call.isTransfer = true) :
    read vertices indices bound (calls ++ others) = read vertices indices bound others := by
  induction calls with
  | nil => rfl
  | cons call calls ih =>
    rw [List.forall_mem_cons] at hcalls
    cases call with
    | allocate => exact ih hcalls.2
    | upload => exact ih hcalls.2
    | _ => simp [isTransfer] at hcalls

theorem isFlush_of_isTransfer {call : DeviceCall} (h : call.isTransfer = true) : call.isFlush = true := by
  cases call with
  | bindTexture => rfl
  | _ => simp [isFlush, h]

/-- The calls that draw stages and bind the texture from before again. -/
def ofStages (stages : Array Stage) (bound : Option Texture) : List DeviceCall :=
  if stages.isEmpty then [] else stages.toList.flatMap ofStage ++ [.bindTexture bound]

/-- The stages are drawn by draws and bindings of textures, and each draw is that of a stage that has faces. -/
theorem cases_of_mem_ofStages {stages : Array Stage} {bound : Option Texture} {call : DeviceCall}
    (h : call ∈ ofStages stages bound) : (∃ texture, call = .bindTexture texture) ∨
      ∃ s ∈ stages, s.faces ≠ 0 ∧ call = .draw (s.baseFace * 3) (s.faces * 3) s.baseVertex := by
  unfold ofStages at h
  split at h
  · cases h
  · rcases List.mem_append.mp h with h | h
    · obtain ⟨s, hs, h⟩ := List.mem_flatMap.mp h
      unfold ofStage at h
      split at h
      · cases h
      case isFalse hfaces =>
        rcases List.mem_pair.mp h with rfl | rfl
        · exact .inl ⟨_, rfl⟩
        · exact .inr ⟨s, Array.mem_toList_iff.mp hs, hfaces, rfl⟩
    · exact .inl ⟨bound, List.mem_singleton.mp h⟩

theorem isFlush_of_mem_ofStages {stages : Array Stage} {bound : Option Texture} {call : DeviceCall}
    (h : call ∈ ofStages stages bound) : call.isFlush = true := by
  rcases cases_of_mem_ofStages h with ⟨_, rfl⟩ | ⟨_, -, -, rfl⟩ <;> rfl

theorem not_isTransfer_of_mem_ofStages {stages : Array Stage} {bound : Option Texture} {call : DeviceCall}
    (h : call ∈ ofStages stages bound) : call.isTransfer = false := by
  rcases cases_of_mem_ofStages h with ⟨_, rfl⟩ | ⟨_, -, -, rfl⟩ <;> rfl

theorem not_isDraw_of_isTransfer {call : DeviceCall} (h : call.isTransfer = true) :
    call.isDraw = false := by
  cases call with
  | draw => simp [isTransfer] at h
  | _ => rfl

end DeviceCall

namespace Submission

/-! ## Transfers -/

/-- What happens before the stages are drawn: the painter keeps all but the sizes of its buffers, and the
device receives transfers only. -/
structure Sends (s t : Submission) : Prop where
  painter : ∃ vertexBuffer indexBuffer unsent,
    t.painter = { s.painter with vertexBuffer, indexBuffer, unsent }
  bound : t.recorder.bound = s.recorder.bound
  log : ∃ calls, t.recorder.log.toList = s.recorder.log.toList ++ calls ∧
    ∀ call ∈ calls, call.isTransfer = true

namespace Sends

variable {s t u : Submission}

theorem refl (s : Submission) : Sends s s := ⟨⟨_, _, _, rfl⟩, rfl, [], by simp, by simp⟩

theorem trans (hst : Sends s t) (htu : Sends t u) : Sends s u := by
  obtain ⟨⟨_, _, _, hpainter⟩, hbound, calls, hlog, hcalls⟩ := hst
  obtain ⟨⟨_, _, _, hpainter'⟩, hbound', others, hlog', hothers⟩ := htu
  refine ⟨⟨_, _, _, by rw [hpainter', hpainter]⟩, hbound'.trans hbound, calls ++ others, ?_, ?_⟩
  · rw [hlog', hlog, List.append_assoc]
  · exact fun call hcall ↦ (List.mem_append.mp hcall).elim (hcalls call) (hothers call)

instance : IsPreorder Submission Sends where
  refl := refl
  trans _ _ _ := trans

end Sends

theorem ensureBuffer_eq (refusal : Refusal) (kind : BufferKind) (needed : Nat) (s : Submission) :
    ensureBuffer refusal kind needed s =
      if Batch.grownRoom (bufferSize s.painter kind) needed = bufferSize s.painter kind then .ok () s
      else match refusal kind with
        | some reason => .error (.gpu reason) s
        | none => .ok () { s with
            recorder := s.recorder.allocate kind (Batch.grownRoom (bufferSize s.painter kind) needed)
            painter := setBufferSize s.painter kind
              (Batch.grownRoom (bufferSize s.painter kind) needed) } := by
  change (ite _ _ _ : Step) s = _
  split
  · rfl
  · cases refusal kind <;> rfl

theorem carries_ensureBuffer (refusal : Refusal) (kind : BufferKind) (needed : Nat) :
    Pass.Carries id Sends (ensureBuffer refusal kind needed) := by
  intro s
  rw [ensureBuffer_eq]
  split
  · exact Sends.refl s
  · cases refusal kind with
    | some reason => exact Sends.refl s
    | none =>
      constructor
      · cases kind
        · exact ⟨_, _, _, rfl⟩
        · exact ⟨_, _, _, rfl⟩
      · cases kind <;> rfl
      · refine ⟨[.allocate kind (Batch.grownRoom (bufferSize s.painter kind) needed)], ?_, ?_⟩
        · cases kind <;> simp [Recorder.allocate, Recorder.record, Recorder.setBuffer]
        · simp [DeviceCall.isTransfer]

theorem upload_cases (r : Recorder) (kind : BufferKind) (offset : Nat) (data : ByteArray) :
    (r.upload kind offset data).1 = r ∨ ∃ written,
      (r.upload kind offset data).1 = (r.setBuffer kind written).record (.upload kind offset data) := by
  by_cases hsize : (r.buffer kind).size < offset + data.size
  · exact .inl (congrArg Prod.fst (if_pos hsize))
  · exact .inr ⟨_, congrArg Prod.fst (if_neg hsize)⟩

theorem carries_upload (kind : BufferKind) (data : ByteArray) :
    Pass.Carries id Sends (upload kind data) := by
  intro s
  change Sends s { s with
    recorder := (s.recorder.upload kind 0 data).1
    notes := s.notes ++ (s.recorder.upload kind 0 data).2 }
  rcases upload_cases s.recorder kind 0 data with hupload | ⟨written, hupload⟩
  · rw [hupload]
    exact ⟨⟨_, _, _, rfl⟩, rfl, [], by simp, by simp⟩
  · rw [hupload]
    refine ⟨⟨_, _, _, rfl⟩, by cases kind <;> rfl, [.upload kind 0 data], ?_, ?_⟩
    · cases kind <;> simp [Recorder.record, Recorder.setBuffer]
    · simp [DeviceCall.isTransfer]

theorem carries_send (refusal : Refusal) : Pass.Carries id Sends (send refusal) := by
  unfold send
  refine Pass.carries_bind Pass.carries_get fun s ↦ ?_
  refine Pass.carries_bind Pass.carries_get fun t ↦ ?_
  refine Pass.carries_bind (carries_ensureBuffer refusal .vertex _) fun _ ↦ ?_
  refine Pass.carries_bind (carries_ensureBuffer refusal .index _) fun _ ↦ ?_
  refine Pass.carries_bind (carries_upload .vertex _) fun _ ↦ ?_
  refine Pass.carries_bind (carries_upload .index _) fun _ ↦ ?_
  intro u
  change Sends u { u with painter := { u.painter with unsent := false } }
  exact ⟨⟨_, _, _, rfl⟩, rfl, [], by simp, by simp⟩

/-- A reason for which an allocation was refused. -/
def Refused (refusal : Refusal) (fault : Fault) : Prop :=
  ∃ kind reason, refusal kind = some reason ∧ fault = .gpu reason

theorem failsOnly_ensureBuffer (refusal : Refusal) (kind : BufferKind) (needed : Nat) :
    Pass.FailsOnly (Refused refusal) (ensureBuffer refusal kind needed) := by
  intro s fault t hrun
  rw [ensureBuffer_eq] at hrun
  split at hrun
  · cases hrun
  · cases hrefused : refusal kind with
    | none =>
      rw [hrefused] at hrun
      cases hrun
    | some reason =>
      rw [hrefused] at hrun
      cases hrun
      exact ⟨kind, reason, hrefused, rfl⟩

theorem failsOnly_send (refusal : Refusal) : Pass.FailsOnly (Refused refusal) (send refusal) := by
  unfold send
  refine Pass.failsOnly_bind (Pass.failsOnly_of_ok fun s ↦ ⟨_, _, rfl⟩) fun s ↦ ?_
  refine Pass.failsOnly_bind (Pass.failsOnly_of_ok fun s ↦ ⟨_, _, rfl⟩) fun t ↦ ?_
  refine Pass.failsOnly_bind (failsOnly_ensureBuffer refusal .vertex _) fun _ ↦ ?_
  refine Pass.failsOnly_bind (failsOnly_ensureBuffer refusal .index _) fun _ ↦ ?_
  refine Pass.failsOnly_bind (Pass.failsOnly_of_ok fun s ↦ ⟨_, _, rfl⟩) fun _ ↦ ?_
  refine Pass.failsOnly_bind (Pass.failsOnly_of_ok fun s ↦ ⟨_, _, rfl⟩) fun _ ↦ ?_
  exact Pass.failsOnly_of_ok fun s ↦ ⟨_, _, rfl⟩

/-- A flush transfers what it has to, and then draws the stages unless a transfer was refused. -/
theorem run_eq (refusal : Refusal) (s : Submission) :
    ∃ t, Sends s t ∧ (run refusal s = .ok () { t with recorder := drawStages t.recorder t.painter.stages } ∨
      ∃ fault, Refused refusal fault ∧ run refusal s = .error fault t) := by
  have hdraw (t : Submission) : (modify fun s ↦ { s with
      recorder := drawStages s.recorder s.painter.stages } : Step) t =
        .ok () { t with recorder := drawStages t.recorder t.painter.stages } := rfl
  cases hunsent : s.painter.unsent with
  | false =>
    have hrun : run refusal s = (modify fun s ↦ { s with
        recorder := drawStages s.recorder s.painter.stages } : Step) s := by
      change (ite (s.painter.unsent = true) _ _ : Step) s = _
      rw [hunsent]
      rfl
    exact ⟨s, .refl s, .inl (hrun.trans (hdraw s))⟩
  | true =>
    have hrun : run refusal s = EStateM.bind (send refusal) (fun _ ↦ (modify fun s ↦ { s with
        recorder := drawStages s.recorder s.painter.stages } : Step)) s := by
      change (ite (s.painter.unsent = true) _ _ : Step) s = _
      rw [hunsent]
      rfl
    have hsent := carries_send refusal s
    rw [hrun, EStateM.bind]
    cases hsend : send refusal s with
    | ok _ t =>
      rw [hsend] at hsent
      exact ⟨t, hsent, .inl (hdraw t)⟩
    | error fault t =>
      rw [hsend] at hsent
      exact ⟨t, hsent, .inr ⟨fault, failsOnly_send refusal s fault t hsend, rfl⟩⟩

/-! ## Draws -/

theorem log_drawStage (r : Recorder) (s : Stage) :
    (drawStage r s).log.toList = r.log.toList ++ DeviceCall.ofStage s := by
  unfold drawStage DeviceCall.ofStage
  split
  · rw [List.append_nil]
  · simp [Recorder.draw, Recorder.bindTexture, Recorder.record]

theorem log_drawStages (r : Recorder) (stages : Array Stage) :
    (drawStages r stages).log.toList = r.log.toList ++ DeviceCall.ofStages stages r.bound := by
  have hfold (stages : List Stage) (r : Recorder) :
      (stages.foldl drawStage r).log.toList = r.log.toList ++ stages.flatMap DeviceCall.ofStage := by
    induction stages generalizing r with
    | nil => simp
    | cons s stages ih => rw [List.foldl_cons, ih, log_drawStage, List.flatMap_cons, List.append_assoc]
  unfold drawStages DeviceCall.ofStages
  split
  · rw [List.append_nil]
  · rw [← Array.foldl_toList, ← List.append_assoc, ← hfold]
    simp [Recorder.bindTexture, Recorder.record]

end Submission

namespace Painter

/-- A flush transfers what it has to and then draws the stages, or it ends at a refused transfer. -/
theorem flush_cases (p : Painter) (refusal : Refusal) (r : Recorder) :
    ∃ transfers, (∀ call ∈ transfers, call.isTransfer = true) ∧
      ((p.flush refusal r).1 = .ok () ∧ (p.flush refusal r).2.recorder.log.toList =
          r.log.toList ++ (transfers ++ DeviceCall.ofStages p.stages r.bound) ∨
        ∃ fault, Submission.Refused refusal fault ∧ (p.flush refusal r).1 = .error fault ∧
          (p.flush refusal r).2.recorder.log.toList = r.log.toList ++ transfers) := by
  obtain ⟨t, ⟨⟨_, _, _, hpainter⟩, hbound, transfers, hlog, htransfers⟩, hrun⟩ :=
    Submission.run_eq refusal ⟨p, r, []⟩
  refine ⟨transfers, htransfers, ?_⟩
  rcases hrun with hrun | ⟨fault, hrefused, hrun⟩
  · left
    rw [Painter.flush, hrun]
    refine ⟨rfl, ?_⟩
    change (Submission.drawStages t.recorder t.painter.stages).log.toList = _
    rw [Submission.log_drawStages, hlog, hbound, hpainter, List.append_assoc]
  · right
    rw [Painter.flush, hrun]
    exact ⟨fault, hrefused, rfl, hlog⟩

/-- A flush that nothing refuses comes to its end. -/
theorem exists_flush (p : Painter) (r : Recorder) : ∃ sent calls, p.flush .never r = (.ok (), sent) ∧
    sent.recorder.log.toList = r.log.toList ++ calls ∧ ∀ call ∈ calls, call.isFlush = true := by
  obtain ⟨transfers, htransfers, ⟨hok, hlog⟩ | ⟨_, ⟨_, _, hrefused, -⟩, -⟩⟩ := p.flush_cases .never r
  · refine ⟨_, _, Prod.ext hok rfl, hlog, fun call hcall ↦ ?_⟩
    exact (List.mem_append.mp hcall).elim (fun h ↦ DeviceCall.isFlush_of_isTransfer (htransfers call h))
      DeviceCall.isFlush_of_mem_ofStages
  · cases hrefused

variable {p : Painter} {runs : List Run}

/-- The corners of all quads, as a device reads them. -/
def indices (p : Painter) : List UInt16 := p.faces.toList.flatMap Face.indices

/-- Drawing the stages shows the quads of the runs. -/
theorem Batched.read_ofStages (h : p.Batched runs) (bound : Option Texture) :
    DeviceCall.read p.vertices.toList p.indices bound (DeviceCall.ofStages p.stages bound) =
      some ((Run.allQuads runs).flatMap Drawn.triangles) := by
  by_cases hstages : p.stages = #[]
  · have hruns : runs = [] := by
      have hlength := congrArg List.length h.stages
      rw [hstages, Run.length_stagesFrom] at hlength
      exact List.length_eq_zero_iff.mp hlength.symm
    rw [hstages, hruns]
    rfl
  · have hvertices : p.vertices.toList = [] ++ ((Run.allQuads runs).flatMap Drawn.corners ++ []) := by
      rw [h.vertices, List.nil_append, List.append_nil]
    have hindices : p.indices = ([] ++ (runs.flatMap Run.faces ++ [])).flatMap Face.indices := by
      rw [indices, h.faces, List.nil_append, List.append_nil]
    rw [DeviceCall.ofStages, if_neg (by simpa using hstages), h.stages]
    apply DeviceCall.read_stagesFrom hvertices hindices rfl rfl h.texture
    intro run hrun
    exact Nat.le_trans (h.fits run hrun) h.limit

/-- A flush shows the quads of the runs, or it is refused and shows nothing. -/
theorem Batched.flush (h : p.Batched runs) (refusal : Refusal) (r : Recorder) :
    ∃ sent, (p.flush refusal r).2.recorder.log.toList = r.log.toList ++ sent ∧
      ((p.flush refusal r).1 = .ok () → DeviceCall.read p.vertices.toList p.indices r.bound sent =
        some ((Run.allQuads runs).flatMap Drawn.triangles)) ∧
      ∀ fault, (p.flush refusal r).1 = .error fault →
        Submission.Refused refusal fault ∧ ∀ call ∈ sent, call.isDraw = false := by
  obtain ⟨transfers, htransfers, ⟨hok, hlog⟩ | ⟨fault, hrefused, herror, hlog⟩⟩ := p.flush_cases refusal r
  · refine ⟨_, hlog, fun _ ↦ ?_, fun fault hfault ↦ ?_⟩
    · rw [DeviceCall.read_append_of_isTransfer htransfers]
      exact h.read_ofStages r.bound
    · rw [hok] at hfault
      cases hfault
  · refine ⟨transfers, hlog, fun hok ↦ ?_, fun other hother ↦ ?_⟩
    · rw [herror] at hok
      cases hok
    · rw [herror] at hother
      cases hother
      exact ⟨hrefused, fun call hcall ↦ DeviceCall.not_isDraw_of_isTransfer (htransfers call hcall)⟩

/-- A flush keeps all of the painter but the sizes of its buffers and whether they are up to date. -/
theorem painter_flush (p : Painter) (refusal : Refusal) (r : Recorder) : ∃ vertexBuffer indexBuffer unsent,
    (p.flush refusal r).2.painter = { p with vertexBuffer, indexBuffer, unsent } := by
  obtain ⟨t, hsends, hrun⟩ := Submission.run_eq refusal ⟨p, r, []⟩
  obtain ⟨vertexBuffer, indexBuffer, unsent, hpainter⟩ := hsends.painter
  refine ⟨vertexBuffer, indexBuffer, unsent, ?_⟩
  rcases hrun with hrun | ⟨fault, hrefused, hrun⟩
  all_goals
    rw [Painter.flush, hrun]
    exact hpainter

theorem sheet_flush (p : Painter) (refusal : Refusal) (r : Recorder) :
    (p.flush refusal r).2.painter.sheet = p.sheet := by
  obtain ⟨_, _, _, hpainter⟩ := painter_flush p refusal r
  rw [hpainter]
  rfl

end Painter

end RetainedUi
