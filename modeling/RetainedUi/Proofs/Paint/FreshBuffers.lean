import RetainedUi.Proofs.Paint.Batching
import RetainedUi.Proofs.Paint.Sending

/-!
# What draws find in the buffers

A painter uploads its arrays only if a quad was drawn since the last flush, and it trusts its own memory of how large
the buffers on the device are. If it flushes to one device all the time and nobody else uses the buffers, this is
enough. For each of the two buffers, a flush that has to upload does to the ledger of the buffer just what storing
the data does, and so the ledgers stay sound whatever is done with the painter. A flush that does not upload draws
nothing, or it finds the data of the painter in the buffers, uploaded by an earlier flush.
-/

namespace RetainedUi

/-- Whether a call is a flush. -/
def PaintCall.isFlush : PaintCall → Bool
  | .flush _ _ => true
  | _ => false

/-- What is done with a painter that flushes to one device. -/
inductive Use where
  /-- A call on the painter that does not concern the device. -/
  | paint (call : PaintCall) (hcall : call.isFlush = false)
  /-- A texture that somebody else binds. -/
  | bindTexture (texture : Option Texture)
  | flush

/-- Whether a quad was drawn since the last flush, after one more use. -/
def Use.drawnAfter (drawn : Bool) : Use → Bool
  | paint call _ => drawn || call.texture?.isSome
  | bindTexture _ => drawn
  | flush => false

namespace Painter

/-- Asking for a stage adds at most one, and that one has no faces. -/
theorem mem_stageFor {p : Painter} {texture : Option Texture} {s : Stage}
    (h : s ∈ (p.stageFor texture).2.stages) : s ∈ p.stages ∨ s.faces = 0 := by
  have hpush {opened : Stage} (hopened : opened.faces = 0) (h : s ∈ p.stages.push opened) :
      s ∈ p.stages ∨ s.faces = 0 := by
    rcases Array.mem_push.mp h with h | rfl
    · exact .inl h
    · exact .inr hopened
  unfold stageFor at h
  split at h
  · exact hpush rfl h
  · split at h
    · exact .inl h
    · exact hpush rfl h

/-- What a call that is no flush does to what concerns the device. A quad is drawn, which then has to be sent. Or the
arrays stay as they are, with at most an empty stage more. Or all is forgotten. -/
theorem after_cases {call : PaintCall} (h : call.isFlush = false) (p : Painter) :
    (call.texture?.isSome = true ∧ ∃ map mapStale vertexRoom vertices faces stages,
        p.after call = { p with map, mapStale, vertexRoom, vertices, faces, stages, unsent := true }) ∨
      (call.texture?.isSome = false ∧ ∃ pen saved map mapStale stages,
        p.after call = { p with pen, saved, map, mapStale, stages } ∧
          ∀ s ∈ stages, s ∈ p.stages ∨ s.faces = 0) ∨
      call.texture?.isSome = false ∧ p.after call = p.clear := by
  by_cases hpen : call.isPen = true
  · have htexture : call.texture?.isSome = false := by
      cases call with
      | drawQuad => cases hpen
      | _ => rfl
    obtain ⟨_, _, _, _, hafter⟩ := after_of_isPen hpen p
    exact .inr (.inl ⟨htexture, _, _, _, _, _, hafter, fun s hs ↦ .inl hs⟩)
  · cases call with
    | drawQuad texture quad =>
      rcases after_drawQuad_cases p texture quad with ⟨fault, hgeometry, hafter⟩ |
        ⟨position, size, hgeometry, hafter⟩
      · refine .inr (.inl ⟨?_, _, _, _, _, _, hafter, fun s hs ↦ .inl hs⟩)
        simp only [PaintCall.texture?, hgeometry]
        rfl
      · refine .inl ⟨?_, hafter ▸ exists_place_eq p texture quad position size⟩
        simp only [PaintCall.texture?, hgeometry]
        rfl
    | stageFor texture => exact .inr (.inl ⟨rfl, _, _, _, _, _, stageFor_eq p texture, fun s ↦ mem_stageFor⟩)
    | clear => exact .inr (.inr ⟨rfl, rfl⟩)
    | flush => cases h
    | setScale | setRotation | setOrigin | setHandle | setColor | save | pop | unwind | transform =>
      exact (hpen rfl).elim

end Painter

namespace Submission

variable {s : Submission}

/-! ## A whole history -/

/-- A new painter and a new device. -/
def fresh (config : PainterConfig) : Submission := ⟨.ofConfig config, .fresh, []⟩

/-- The painter and the device after a use, with the notes of the device. -/
def after (s : Submission) : Use → Submission
  | .paint call _ => { s with painter := s.painter.after call }
  | .bindTexture texture => { s with recorder := s.recorder.bindTexture texture }
  | .flush =>
    let flushed := (s.painter.flush .never s.recorder).2
    { flushed with notes := s.notes ++ flushed.notes }

def afterAll (s : Submission) (uses : List Use) : Submission := uses.foldl after s

/-- What is kept up between a painter and its device. If nothing has to be sent, the stages are all empty or the device
has the data of the painter. -/
structure Kept (s : Submission) (drawn : Bool) : Prop where
  sound : ∀ kind, (s.ledger kind).Sound
  notes : s.notes = []
  unsent : s.painter.unsent = drawn
  sent : drawn = false →
    (∀ stage ∈ s.painter.stages, stage.faces = 0) ∨ ∀ kind, (s.ledger kind).Holds (s.painter.data kind)

theorem kept_fresh (config : PainterConfig) : (fresh config).Kept false where
  sound kind := by
    cases kind <;> exact ⟨⟨rfl, rfl, .nil⟩, Nat.zero_le _⟩
  notes := rfl
  unsent := rfl
  sent _ := .inl (by simp [fresh, Painter.ofConfig])

/-! ## The steps of a history -/

theorem ledger_withPainter {p : Painter} (hsize : ∀ kind, bufferSize p kind = bufferSize s.painter kind)
    (kind : BufferKind) : ({ s with painter := p } : Submission).ledger kind = s.ledger kind := by
  simp only [ledger, hsize]

theorem ledger_bindTexture (s : Submission) (texture : Option Texture) (kind : BufferKind) :
    (s.after (.bindTexture texture)).ledger kind = s.ledger kind := by
  have hbuffer : (s.recorder.bindTexture texture).buffer kind = s.recorder.buffer kind := by
    cases kind <;> rfl
  have hlog : (s.recorder.bindTexture texture).log.toList = s.recorder.log.toList ++ [.bindTexture texture] :=
    Array.toList_push
  simp [ledger, after, hbuffer, hlog, DeviceCall.allocation?, DeviceCall.upload?]

theorem painter_after_flush (s : Submission) : ∃ vertexBuffer indexBuffer,
    (s.after .flush).painter = { s.painter with vertexBuffer, indexBuffer, unsent := false } := by
  rw [after, flush_never]
  exact painter_caughtUp ⟨s.painter, s.recorder, []⟩

/-- To the ledgers, a flush is a store if there is something to send, and nothing otherwise. -/
theorem ledger_after_flush (s : Submission) (kind : BufferKind) : (s.after .flush).ledger kind =
    if s.painter.unsent then (s.ledger kind).store (s.painter.data kind) else s.ledger kind := by
  have hcaughtUp : (caughtUp ⟨s.painter, s.recorder, []⟩).ledger kind =
      if s.painter.unsent then (s.ledger kind).store (s.painter.data kind) else s.ledger kind := by
    unfold caughtUp
    split
    · exact ledger_sent ⟨s.painter, s.recorder, []⟩ kind
    · rfl
  have hdraws : ∀ call ∈ DeviceCall.ofStages s.painter.stages (caughtUp ⟨s.painter, s.recorder, []⟩).recorder.bound,
      DeviceCall.allocation? kind call = none ∧ DeviceCall.upload? kind call = none := by
    intro call hcall
    rcases DeviceCall.cases_of_mem_ofStages hcall with ⟨_, rfl⟩ | ⟨_, -, -, rfl⟩
    · exact ⟨rfl, rfl⟩
    · exact ⟨rfl, rfl⟩
  rw [after, flush_never, ← hcaughtUp]
  simp only [ledger, log_drawStages, List.filterMap_append, (drawStages_keeps _ _).1,
    List.filterMap_eq_nil_iff.mpr fun call hcall ↦ (hdraws call hcall).1,
    List.filterMap_eq_nil_iff.mpr fun call hcall ↦ (hdraws call hcall).2, List.append_nil]

theorem notes_after_flush (h : ∀ kind, (s.ledger kind).Steady) : (s.after .flush).notes = s.notes := by
  have hcaughtUp : (caughtUp ⟨s.painter, s.recorder, []⟩).notes = [] := by
    unfold caughtUp
    split
    · exact notes_sent (s := ⟨s.painter, s.recorder, []⟩) h
    · rfl
  rw [after, flush_never]
  change s.notes ++ (caughtUp ⟨s.painter, s.recorder, []⟩).notes = s.notes
  rw [hcaughtUp, List.append_nil]

namespace Kept

variable {drawn : Bool}

/-- A painter that agrees about the sizes of the buffers can take the place of the other one. -/
theorem withPainter (h : s.Kept drawn) {p : Painter} {drawn' : Bool}
    (hsize : ∀ kind, bufferSize p kind = bufferSize s.painter kind) (hunsent : p.unsent = drawn')
    (hsent : drawn' = false →
      (∀ stage ∈ p.stages, stage.faces = 0) ∨ ∀ kind, (s.ledger kind).Holds (p.data kind)) :
    ({ s with painter := p } : Submission).Kept drawn' where
  sound kind := by
    rw [ledger_withPainter hsize]
    exact h.sound kind
  notes := h.notes
  unsent := hunsent
  sent hdrawn := by
    simp only [ledger_withPainter hsize]
    exact hsent hdrawn

theorem paint (h : s.Kept drawn) {call : PaintCall} (hcall : call.isFlush = false) :
    (s.after (.paint call hcall)).Kept (drawn || call.texture?.isSome) := by
  rcases Painter.after_cases hcall s.painter with ⟨hdraws, _, _, _, _, _, _, hafter⟩ |
    ⟨hdraws, _, _, _, _, _, hafter, hstages⟩ | ⟨hdraws, hafter⟩
  · rw [after, hafter, hdraws, Bool.or_true]
    exact h.withPainter (fun kind ↦ by cases kind <;> rfl) rfl fun hdrawn ↦ by cases hdrawn
  · rw [after, hafter, hdraws, Bool.or_false]
    refine h.withPainter (fun kind ↦ by cases kind <;> rfl) h.unsent fun hdrawn ↦ ?_
    rcases h.sent hdrawn with hempty | hholds
    · exact .inl fun stage hstage ↦ (hstages stage hstage).elim (hempty stage) id
    · exact .inr fun kind ↦ by cases kind <;> exact hholds _
  · rw [after, hafter, hdraws, Bool.or_false]
    exact h.withPainter (fun kind ↦ by cases kind <;> rfl) h.unsent fun _ ↦ .inl (by simp [Painter.clear])

theorem bindTexture (h : s.Kept drawn) (texture : Option Texture) : (s.after (.bindTexture texture)).Kept drawn where
  sound kind := by
    rw [ledger_bindTexture]
    exact h.sound kind
  notes := h.notes
  unsent := h.unsent
  sent hdrawn := by
    simp only [ledger_bindTexture]
    exact h.sent hdrawn

/-- Behind a flush, everything is sent. -/
theorem flush (h : s.Kept drawn) : (s.after .flush).Kept false := by
  obtain ⟨_, _, hpainter⟩ := painter_after_flush s
  have hdata (kind : BufferKind) : (s.after .flush).painter.data kind = s.painter.data kind := by
    rw [hpainter]
    cases kind <;> rfl
  constructor
  · intro kind
    rw [ledger_after_flush]
    split
    · exact (h.sound kind).store _
    · exact h.sound kind
  · rw [notes_after_flush fun kind ↦ (h.sound kind).toSteady, h.notes]
  · rw [hpainter]
  · intro _
    simp only [ledger_after_flush, hdata]
    cases hunsent : s.painter.unsent with
    | true => exact .inr fun kind ↦ (h.sound kind).toSteady.holds_store _
    | false =>
      -- Nothing was sent, and nothing was drawn since the flush before.
      rw [hpainter]
      exact h.sent (h.unsent.symm.trans hunsent)

theorem after (h : s.Kept drawn) (use : Use) : (s.after use).Kept (use.drawnAfter drawn) := by
  cases use with
  | paint call hcall => exact h.paint hcall
  | bindTexture texture => exact h.bindTexture texture
  | flush => exact h.flush

theorem afterAll (h : s.Kept drawn) (uses : List Use) : (s.afterAll uses).Kept (uses.foldl Use.drawnAfter drawn) := by
  induction uses generalizing s drawn with
  | nil => exact h
  | cons use uses ih => exact ih (h.after use)

/-- What is drawn was uploaded. -/
theorem holds_of_faces_ne_zero (h : s.Kept drawn) {stage : Stage} (hstage : stage ∈ s.painter.stages)
    (hfaces : stage.faces ≠ 0) (kind : BufferKind) : ((s.after .flush).ledger kind).Holds (s.painter.data kind) := by
  obtain ⟨_, _, hpainter⟩ := painter_after_flush s
  have hsent := h.flush.sent rfl
  rw [hpainter] at hsent
  rcases hsent with hempty | hholds
  · exact (hfaces (hempty stage hstage)).elim
  · cases kind <;> exact hholds _

/-- A flush uploads if there is something to send. -/
theorem upload?_sent (h : s.Kept drawn) {sent : List DeviceCall}
    (hlog : (s.after .flush).recorder.log.toList = s.recorder.log.toList ++ sent) (kind : BufferKind) :
    sent.filterMap (DeviceCall.upload? kind) = if drawn then [(0, s.painter.data kind)] else [] := by
  have huploads : ((s.after .flush).ledger kind).uploads =
      (s.ledger kind).uploads ++ if drawn then [(0, s.painter.data kind)] else [] := by
    rw [ledger_after_flush, h.unsent]
    cases drawn with
    | true =>
      simp only [if_true]
      rw [(h.sound kind).toSteady.store_eq]
    | false => exact (List.append_nil _).symm
  simp only [ledger, hlog, List.filterMap_append] at huploads
  exact List.append_cancel_left huploads

/-- A buffer does not shrink. -/
theorem size_le_after (h : s.Kept drawn) (use : Use) (kind : BufferKind) :
    (s.ledger kind).size ≤ ((s.after use).ledger kind).size := by
  cases use with
  | paint call hcall =>
    rw [← (h.sound kind).size, ← ((h.paint hcall).sound kind).size]
    exact Nat.le_refl _
  | bindTexture texture => rw [ledger_bindTexture]
  | flush =>
    rw [ledger_after_flush]
    split
    · exact (h.sound kind).toSteady.size_le_store _
    · exact Nat.le_refl _

end Kept

theorem bound_after_flush (s : Submission) : (s.after .flush).recorder.bound = s.recorder.bound := by
  have hcaughtUp : (caughtUp ⟨s.painter, s.recorder, []⟩).recorder.bound = s.recorder.bound := by
    unfold caughtUp
    split
    · have hsends := carries_send .never ⟨s.painter, s.recorder, []⟩
      rw [send_never] at hsends
      exact hsends.bound
    · rfl
  rw [after, flush_never]
  exact (drawStages_keeps _ _).2.trans hcaughtUp

/-- Of the calls of a flush, the transfers come before the draws. -/
theorem upload?_eq_none_of_draw {transfers draws front rest : List DeviceCall} {firstIndex count : Nat} {base : Int}
    (htransfers : ∀ call ∈ transfers, call.isTransfer = true) (hdraws : ∀ call ∈ draws, call.isTransfer = false)
    (h : transfers ++ draws = front ++ .draw firstIndex count base :: rest) (kind : BufferKind) :
    (DeviceCall.draw firstIndex count base :: rest).filterMap (DeviceCall.upload? kind) = [] := by
  have hnone {call : DeviceCall} (hcall : call.isTransfer = false) : DeviceCall.upload? kind call = none := by
    cases call with
    | upload => cases hcall
    | _ => rfl
  rw [List.filterMap_eq_nil_iff]
  rcases List.append_eq_append_iff.mp h with ⟨more, -, hmore⟩ | ⟨more, hmore, hrest⟩
  · exact fun call hcall ↦ hnone (hdraws call (hmore ▸ List.mem_append_right more hcall))
  · cases more with
    | nil =>
      rw [List.nil_append] at hrest
      exact fun call hcall ↦ hnone (hdraws call (hrest ▸ hcall))
    | cons call more =>
      obtain ⟨rfl, -⟩ := List.cons_eq_cons.mp hrest
      cases htransfers _ (hmore ▸ List.mem_append_right front List.mem_cons_self)

/-- The buffers of a painter that flushes to one device, after any calls on the two of them and before one more flush.
The painter remembers how large the buffers are. Every allocation was at least twice as large as the one before, and no
buffer is larger than twice the largest data that was uploaded to it or shrinks later. No data was too large for its
buffer. The flush comes to its end and binds the texture from before again. It uploads, each array once to the start of
its buffer, just if a quad was drawn since the last flush. Whenever it draws, the arrays as they are now are what was
uploaded last, and the buffers begin with them. -/
theorem buffers_fresh (config : PainterConfig) (uses : List Use) :
    let s := (fresh config).afterAll uses
    let log := s.recorder.log.toList
    (∀ kind, (s.ledger kind).Sound) ∧ s.notes = [] ∧
      (∀ use kind, (s.ledger kind).size ≤ ((s.after use).ledger kind).size) ∧
      (s.painter.flush .never s.recorder).1 = .ok () ∧
      (s.after .flush).recorder.bound = s.recorder.bound ∧
      ∃ sent, (s.after .flush).recorder.log.toList = log ++ sent ∧
        (∀ kind, sent.filterMap (DeviceCall.upload? kind) =
          if uses.foldl Use.drawnAfter false then [(0, s.painter.data kind)] else []) ∧
        ∀ front firstIndex count base rest, sent = front ++ .draw firstIndex count base :: rest → ∀ kind,
          ((log ++ front).filterMap (DeviceCall.upload? kind)).getLast? = some (0, s.painter.data kind) ∧
          ((s.after .flush).recorder.buffer kind).extract 0 (s.painter.data kind).size = s.painter.data kind := by
  intro s log
  have hkept : s.Kept (uses.foldl Use.drawnAfter false) := (kept_fresh config).afterAll uses
  refine ⟨hkept.sound, hkept.notes, hkept.size_le_after, congrArg Prod.fst (flush_never _ _), bound_after_flush s, ?_⟩
  obtain ⟨transfers, htransfers, ⟨-, hlog⟩ | ⟨_, ⟨_, _, hrefused, -⟩, -⟩⟩ :=
    s.painter.flush_cases .never s.recorder
  · refine ⟨_, hlog, hkept.upload?_sent hlog, fun front firstIndex count base rest hsent kind ↦ ?_⟩
    have hdraw : DeviceCall.draw firstIndex count base ∈
        transfers ++ DeviceCall.ofStages s.painter.stages s.recorder.bound := by
      rw [hsent]
      exact List.mem_append_right front List.mem_cons_self
    obtain hdraw | hdraw := List.mem_append.mp hdraw
    · cases htransfers _ hdraw
    · obtain ⟨_, ⟨⟩⟩ | ⟨stage, hstage, hfaces, -⟩ := DeviceCall.cases_of_mem_ofStages hdraw
      -- The draw is that of a stage with faces. Behind it nothing is uploaded, so the data held at the end is there.
      have hholds := hkept.holds_of_faces_ne_zero hstage hfaces kind
      have huploads : ((s.after .flush).ledger kind).uploads = (log ++ front).filterMap (DeviceCall.upload? kind) := by
        have hnone :=
          upload?_eq_none_of_draw htransfers (fun call ↦ DeviceCall.not_isTransfer_of_mem_ofStages) hsent kind
        change ((s.painter.flush .never s.recorder).2.recorder.log.toList).filterMap _ = _
        rw [hlog, hsent, ← List.append_assoc, List.filterMap_append, hnone, List.append_nil]
      rw [← huploads]
      exact ⟨hholds.uploaded, hholds.contents⟩
  · cases hrefused

end Submission

end RetainedUi
