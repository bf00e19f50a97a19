import RetainedUi.Proofs.Paint.Flushing
import RetainedUi.Proofs.Paint.Ledger

/-!
# A flush as a store

A flush that has something to send treats the two buffers one after the other. For the ledger of each buffer this is
nothing but storing the bytes of its array: what is done with the other buffer does not matter, and neither do the
draws. A flush that has nothing to send leaves the ledgers alone.
-/

namespace RetainedUi

/-- The bytes that belong into the buffer of a kind. -/
def Painter.data (p : Painter) : BufferKind → ByteArray
  | .vertex => Batch.vertexBytes p.vertices
  | .index => Batch.faceBytes p.faces

namespace Recorder

variable {kind other : BufferKind}

@[simp]
theorem buffer_setBuffer (r : Recorder) (kind : BufferKind) (contents : ByteArray) :
    (r.setBuffer kind contents).buffer kind = contents := by
  cases kind <;> rfl

theorem buffer_setBuffer_of_ne (h : kind ≠ other) (r : Recorder) (contents : ByteArray) :
    (r.setBuffer kind contents).buffer other = r.buffer other := by
  cases kind with
  | vertex => cases other with
    | vertex => exact (h rfl).elim
    | index => rfl
  | index => cases other with
    | vertex => rfl
    | index => exact (h rfl).elim

@[simp]
theorem log_setBuffer (r : Recorder) (kind : BufferKind) (contents : ByteArray) :
    (r.setBuffer kind contents).log = r.log := by
  cases kind <;> rfl

@[simp]
theorem buffer_record (r : Recorder) (call : DeviceCall) (kind : BufferKind) :
    (r.record call).buffer kind = r.buffer kind := by
  cases kind <;> rfl

@[simp]
theorem log_record (r : Recorder) (call : DeviceCall) : (r.record call).log.toList = r.log.toList ++ [call] :=
  Array.toList_push

end Recorder

namespace Submission

variable {s : Submission} {kind other : BufferKind}

/-- What there is to know about the buffer of a kind. -/
def ledger (s : Submission) (kind : BufferKind) : Ledger where
  size := bufferSize s.painter kind
  contents := s.recorder.buffer kind
  allocations := s.recorder.log.toList.filterMap (DeviceCall.allocation? kind)
  uploads := s.recorder.log.toList.filterMap (DeviceCall.upload? kind)

@[simp]
theorem bufferSize_setBufferSize (p : Painter) (kind : BufferKind) (size : Nat) :
    bufferSize (setBufferSize p kind size) kind = size := by
  cases kind <;> rfl

theorem bufferSize_setBufferSize_of_ne (h : kind ≠ other) (p : Painter) (size : Nat) :
    bufferSize (setBufferSize p kind size) other = bufferSize p other := by
  cases kind with
  | vertex => cases other with
    | vertex => exact (h rfl).elim
    | index => rfl
  | index => cases other with
    | vertex => rfl
    | index => exact (h rfl).elim

/-! ## One upload -/

/-- There is room for data of some size. -/
def ensured (s : Submission) (kind : BufferKind) (needed : Nat) : Submission :=
  if Batch.grownRoom (bufferSize s.painter kind) needed = bufferSize s.painter kind then s
  else { s with
    recorder := s.recorder.allocate kind (Batch.grownRoom (bufferSize s.painter kind) needed)
    painter := setBufferSize s.painter kind (Batch.grownRoom (bufferSize s.painter kind) needed) }

/-- Data was uploaded. -/
def uploaded (s : Submission) (kind : BufferKind) (data : ByteArray) : Submission :=
  { s with
    recorder := (s.recorder.upload kind 0 data).1
    notes := s.notes ++ (s.recorder.upload kind 0 data).2 }

theorem ensureBuffer_never (s : Submission) (kind : BufferKind) (needed : Nat) :
    ensureBuffer .never kind needed s = .ok () (s.ensured kind needed) := by
  rw [ensureBuffer_eq, ensured]
  split <;> rfl

theorem painter_ensured (s : Submission) (kind : BufferKind) (needed : Nat) :
    ∃ vertexBuffer indexBuffer, (s.ensured kind needed).painter = { s.painter with vertexBuffer, indexBuffer } := by
  unfold ensured
  split
  · exact ⟨_, _, rfl⟩
  · cases kind <;> exact ⟨_, _, rfl⟩

theorem ledger_ensured (s : Submission) (kind : BufferKind) (needed : Nat) :
    (s.ensured kind needed).ledger kind = (s.ledger kind).ensure needed := by
  by_cases hsame : Batch.grownRoom (bufferSize s.painter kind) needed = bufferSize s.painter kind
  · rw [ensured, if_pos hsame]
    exact (if_pos hsame).symm
  · rw [ensured, if_neg hsame]
    refine Eq.trans ?_ (if_neg hsame).symm
    simp [ledger, Ledger.renew, Recorder.allocate, DeviceCall.allocation?, DeviceCall.upload?]

theorem ledger_ensured_of_ne (h : kind ≠ other) (s : Submission) (needed : Nat) :
    (s.ensured kind needed).ledger other = s.ledger other := by
  unfold ensured
  split
  · rfl
  · simp [ledger, Recorder.allocate, DeviceCall.allocation?, DeviceCall.upload?, h, Recorder.buffer_setBuffer_of_ne h,
      bufferSize_setBufferSize_of_ne h]

theorem ledger_uploaded (s : Submission) (kind : BufferKind) (data : ByteArray) :
    (s.uploaded kind data).ledger kind = (s.ledger kind).write data := by
  by_cases hsize : (s.recorder.buffer kind).size < 0 + data.size
  · rw [uploaded, Recorder.upload, if_pos hsize]
    exact (if_pos hsize).symm
  · rw [uploaded, Recorder.upload, if_neg hsize]
    refine Eq.trans ?_ (if_neg hsize).symm
    simp [ledger, DeviceCall.allocation?, DeviceCall.upload?]

theorem ledger_uploaded_of_ne (h : kind ≠ other) (s : Submission) (data : ByteArray) :
    (s.uploaded kind data).ledger other = s.ledger other := by
  unfold uploaded
  rcases upload_cases s.recorder kind 0 data with hupload | ⟨written, hupload⟩
  · rw [hupload]
    rfl
  · rw [hupload]
    simp [ledger, DeviceCall.allocation?, DeviceCall.upload?, h, Recorder.buffer_setBuffer_of_ne h]

/-- Data that fits is uploaded without a note. -/
theorem notes_uploaded {data : ByteArray} (h : data.size ≤ (s.ledger kind).contents.size) :
    (s.uploaded kind data).notes = s.notes := by
  have hnotes : (s.recorder.upload kind 0 data).2 = [] := by
    rw [Recorder.upload, if_neg]
    rw [Nat.zero_add]
    exact Nat.not_lt_of_le h
  rw [uploaded, hnotes]
  exact List.append_nil _

/-! ## One flush -/

/-- Both arrays were sent. -/
def sent (s : Submission) : Submission :=
  let t := (((s.ensured .vertex (s.painter.data .vertex).size).ensured .index (s.painter.data .index).size).uploaded
    .vertex (s.painter.data .vertex)).uploaded .index (s.painter.data .index)
  { t with painter := { t.painter with unsent := false } }

theorem send_never (s : Submission) : send .never s = .ok () s.sent := by
  have hvertex := ensureBuffer_never s .vertex (s.painter.data .vertex).size
  have hindex := ensureBuffer_never (s.ensured .vertex (s.painter.data .vertex).size) .index
    (s.painter.data .index).size
  exact (Pass.bind_of_ok hvertex).trans (Pass.bind_of_ok hindex)

theorem painter_sent (s : Submission) : ∃ vertexBuffer indexBuffer,
    s.sent.painter = { s.painter with vertexBuffer, indexBuffer, unsent := false } := by
  obtain ⟨_, _, hvertex⟩ := painter_ensured s .vertex (s.painter.data .vertex).size
  obtain ⟨_, _, hindex⟩ := painter_ensured (s.ensured .vertex (s.painter.data .vertex).size) .index
    (s.painter.data .index).size
  rw [hvertex] at hindex
  exact ⟨_, _, congrArg (fun p : Painter ↦ { p with unsent := false }) hindex⟩

/-- Sending the arrays stores the data of both buffers. -/
theorem ledger_sent (s : Submission) (kind : BufferKind) :
    s.sent.ledger kind = (s.ledger kind).store (s.painter.data kind) := by
  have hvertex : BufferKind.vertex ≠ .index := by decide
  change (uploaded _ .index _).ledger kind = _
  cases kind with
  | vertex =>
    rw [ledger_uploaded_of_ne hvertex.symm, ledger_uploaded, ledger_ensured_of_ne hvertex.symm, ledger_ensured,
      Ledger.store]
  | index =>
    rw [ledger_uploaded, ledger_uploaded_of_ne hvertex, ledger_ensured, ledger_ensured_of_ne hvertex, Ledger.store]

/-- The data fits. -/
theorem notes_sent (h : ∀ kind, (s.ledger kind).Steady) : s.sent.notes = s.notes := by
  have hvertex : BufferKind.vertex ≠ .index := by decide
  change (uploaded _ .index _).notes = _
  rw [notes_uploaded, notes_uploaded]
  · unfold ensured
    split <;> split <;> rfl
  · rw [ledger_ensured_of_ne hvertex.symm, ledger_ensured]
    exact (h .vertex).fits _
  · rw [ledger_uploaded_of_ne hvertex, ledger_ensured, ledger_ensured_of_ne hvertex]
    exact (h .index).fits _

/-- What has to be sent was sent. -/
def caughtUp (s : Submission) : Submission := if s.painter.unsent then s.sent else s

theorem painter_caughtUp (s : Submission) : ∃ vertexBuffer indexBuffer,
    s.caughtUp.painter = { s.painter with vertexBuffer, indexBuffer, unsent := false } := by
  unfold caughtUp
  cases hunsent : s.painter.unsent with
  | true => exact painter_sent s
  | false =>
    rw [← hunsent, if_neg (Bool.eq_false_iff.mp hunsent)]
    exact ⟨_, _, rfl⟩

theorem run_never (s : Submission) : run .never s =
    .ok () { s.caughtUp with recorder := drawStages s.caughtUp.recorder s.caughtUp.painter.stages } := by
  change (ite (s.painter.unsent = true) _ _ : Step) s = _
  unfold caughtUp
  split
  · exact Pass.bind_of_ok (send_never s)
  · rfl

/-- A flush that nothing refuses sends what it has to, and draws the stages. -/
theorem flush_never (p : Painter) (r : Recorder) : p.flush .never r = (.ok (), { caughtUp ⟨p, r, []⟩ with
    recorder := drawStages (caughtUp ⟨p, r, []⟩).recorder p.stages }) := by
  obtain ⟨_, _, hpainter⟩ := painter_caughtUp ⟨p, r, []⟩
  rw [Painter.flush, run_never, hpainter]

/-- Draws leave the buffers alone, and the texture from before is bound at the end. -/
theorem drawStages_keeps (r : Recorder) (stages : Array Stage) :
    (∀ kind, (drawStages r stages).buffer kind = r.buffer kind) ∧ (drawStages r stages).bound = r.bound := by
  have hfold (stages : List Stage) (r : Recorder) (kind : BufferKind) :
      (stages.foldl drawStage r).buffer kind = r.buffer kind := by
    induction stages generalizing r with
    | nil => rfl
    | cons s stages ih =>
      rw [List.foldl_cons, ih]
      unfold drawStage
      split
      · rfl
      · cases kind <;> rfl
  unfold drawStages
  split
  · exact ⟨fun _ ↦ rfl, rfl⟩
  · refine ⟨fun kind ↦ ?_, rfl⟩
    rw [← Array.foldl_toList, ← hfold stages.toList r kind]
    cases kind <;> rfl

end Submission

end RetainedUi
