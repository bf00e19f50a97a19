import RetainedUi.Proofs.Desktop.Redraw
import RetainedUi.Proofs.Desktop.Upkeep
import RetainedUi.Proofs.Forest.Climbing
import RetainedUi.Proofs.Paint.DrawWalk

/-!
# The rounds of a presentation

Every round takes what the root has pending, clears it, draws all views once and flushes what was drawn. Drawings may
ask to be repeated, and then the root is pending again when the round is over. So the rounds end because the root is
clean, or because nothing of what is pending shows, or because there were as many of them as there may be. In the last
case what is pending is put back, and a later presentation begins with it.

A device that refuses nothing lets every round come to its end, as long as the drawings do. A flush forgets its quads,
so the painter of a window holds none between presentations.
-/

namespace RetainedUi

variable {W A : Type}

/-- The painter holds no quads. -/
structure Painter.Blank (p : Painter) : Prop where
  stages : p.stages = #[]
  vertices : p.vertices = #[]
  faces : p.faces = #[]

theorem Painter.blank_ofConfig (config : PainterConfig) : (ofConfig config).Blank := ⟨rfl, rfl, rfl⟩

theorem Painter.blank_clear (p : Painter) : p.clear.Blank := ⟨rfl, rfl, rfl⟩

namespace DeviceCall

/-- Whether a call clears. -/
def isClear : DeviceCall → Bool
  | .clear _ => true
  | _ => false

end DeviceCall

namespace Pane

/-! ## One round -/

/-- What a window draws on. -/
def studio (s : Pane W A) : Studio W A := ⟨s.window.forest, s.window.painter, s.ambient⟩

/-- One round was done with a region that was taken: the region was cleared, or all of the window where a shown frame
does not stay, then every view that has a drawing was drawn once, and what was drawn was flushed. -/
structure Redrawn (conduct : DrawingConduct W A) (bounds region : Rect) (s : Pane W A) (sent : List DeviceCall)
    (t : Pane W A) : Prop where
  ran : drawRound conduct .none bounds region s = .ok (.ok ()) t
  calls : t.calls = s.calls ++ sent
  cleared : ∃ flushed, sent = .clear (if s.screen.preservesContents then region else bounds) :: flushed ∧
    ∀ call ∈ flushed, call.isFlush = true
  whole : (s.window.forest.listing s.window.root).Nodup ∧
    ∀ v, v ∈ s.window.forest.listing s.window.root ↔ s.window.forest.InFamily s.window.root v
  drawn : ∃ (studio : Studio W A) (visits : List Visit),
    Studio.draw conduct.recorded s.window.root (s.studio.withVisits []) = .ok () (studio.withVisits visits) ∧
    t.window.forest = studio.forest ∧ visits.map Visit.view =
      (s.window.forest.listing s.window.root).filter (Studio.hasDrawing conduct s.window.forest)
  blank : t.window.painter.Blank
  root : t.window.root = s.window.root
  setting : Forest.Alike Node.setting s.window.forest t.window.forest

theorem onStudio_of_ok {α : Type} {pass : Pass (Studio W A) α} {s : Pane W A} {answer : α} {drawn : Studio W A}
    (h : pass s.studio = .ok answer drawn) : onStudio pass s = .ok answer { s with
      window := { s.window with forest := drawn.forest, painter := drawn.painter }, ambient := drawn.ambient } := by
  unfold onStudio
  rw [show pass ⟨s.window.forest, s.window.painter, s.ambient⟩ = _ from h]

theorem flush_of_eq {outage : Outage} {s : Pane W A} {answer : Except Fault Unit} {sent : Submission}
    (h : s.window.painter.flush outage.refusal s.screen.recorder = (answer, sent)) : flush outage s =
      .ok answer { s with
        window := { s.window with painter := sent.painter.clear }
        screen := { s.screen with recorder := sent.recorder }
        ambient := s.ambient.noteAll sent.notes } := by
  unfold flush
  rw [Pass.bind_get]
  dsimp only
  rw [h]
  rfl

section

variable {conduct : DrawingConduct W A} (hconduct : conduct.Returning) {s : Pane W A}
include hconduct

/-- On a device that refuses nothing a round comes to its end. -/
theorem exists_redrawn (hf : s.window.forest.WellFormed) (hroot : s.window.forest.contains s.window.root = true)
    (bounds region : Rect) : ∃ sent t, Redrawn conduct bounds region s sent t := by
  let cleared : Pane W A := { s with
    screen := s.screen.record (.clear (if s.screen.preservesContents then region else bounds)) }
  obtain ⟨drawn, visits, hplain, hrecorded, hwalked, -⟩ :=
    Studio.exists_draw hconduct (s := s.studio) (v := s.window.root) hf hroot
  obtain ⟨sent, flushed, hflush, hlog, hflushed⟩ := drawn.painter.exists_flush cleared.screen.recorder
  let t : Pane W A := { cleared with
    window := { s.window with forest := drawn.forest, painter := sent.painter.clear }
    screen := { cleared.screen with recorder := sent.recorder }
    ambient := drawn.ambient.noteAll sent.notes }
  have hran : drawRound conduct .none bounds region s = .ok (.ok ()) t :=
    (Pass.bind_of_ok (onStudio_of_ok (s := cleared) hplain)).trans (flush_of_eq hflush)
  refine ⟨_, t, hran, ?_, ⟨flushed, rfl, hflushed⟩,
    ⟨hf.nodup_preorder (hf.fits hroot), fun _ ↦ hf.mem_listing_iff hroot⟩, ⟨drawn, _, hrecorded, rfl, ?_⟩,
    Painter.blank_clear _, rfl, hwalked.setting⟩
  · change sent.recorder.log.toList = _
    rw [hlog]
    change (s.screen.recorder.log.push _).toList ++ flushed = _
    rw [Array.toList_push, List.append_assoc]
    rfl
  · rw [← show visits.map Visit.view = s.window.forest.listing s.window.root from hwalked.order, List.filter_map]
    rfl

end

/-! ## Rounds -/

/-- So many rounds were done, each with a region that was pending in the root and is not empty. -/
inductive Rounds (conduct : DrawingConduct W A) (bounds : Rect) :
    Nat → Pane W A → List DeviceCall → Pane W A → Prop where
  | nil (s : Pane W A) : Rounds conduct bounds 0 s [] s
  | cons {n : Nat} {s t u : Pane W A} {region : Rect} {sent calls : List DeviceCall}
      (hpending : s.pending? = some region) (hregion : region.isEmpty = false)
      (hround : Redrawn conduct bounds region s.taken sent t) (hrest : Rounds conduct bounds n t calls u) :
      Rounds conduct bounds (n + 1) s (sent ++ calls) u

/-- Rounds have ended with the second state, and this is what they have left behind. Either the root is clean, and
nothing that shows was pending when the last round was over, or there was no round left, and what was pending then is
pending again. -/
def Left (left n : Nat) (bounds : Rect) (last t : Pane W A) : Prop :=
  (t.pending? = none ∧ ∀ region, last.pending? = some region → region.isEmpty = true) ∨
    n = left ∧ ∃ region, last.pending? = some region ∧ t.pending? = some (region.intersection bounds)

section

variable {conduct : DrawingConduct W A} {bounds : Rect} {n : Nat} {s t : Pane W A} {calls : List DeviceCall}

theorem Redrawn.countP_isClear {region : Rect} (h : Redrawn conduct bounds region s calls t) :
    calls.countP DeviceCall.isClear = 1 ∧ .bind ∉ calls ∧ .swap ∉ calls := by
  obtain ⟨flushed, rfl, hflushed⟩ := h.cleared
  have hnone : flushed.countP DeviceCall.isClear = 0 := by
    refine List.countP_eq_zero.mpr fun call hcall hclear ↦ ?_
    cases call with
    | clear => cases hflushed _ hcall
    | _ => cases hclear
  refine ⟨by rw [List.countP_cons_of_pos rfl, hnone], ?_, ?_⟩
  · exact fun hmem ↦ (List.mem_cons.mp hmem).elim (fun h ↦ by cases h) fun h ↦ by cases hflushed _ h
  · exact fun hmem ↦ (List.mem_cons.mp hmem).elim (fun h ↦ by cases h) fun h ↦ by cases hflushed _ h

/-- There is one call that clears in every round, and none that binds or swaps. -/
theorem Rounds.countP_isClear (h : Rounds conduct bounds n s calls t) :
    calls.countP DeviceCall.isClear = n ∧ .bind ∉ calls ∧ .swap ∉ calls := by
  induction h with
  | nil => simp
  | cons _ _ hround _ ih =>
    obtain ⟨hclear, hbind, hswap⟩ := hround.countP_isClear
    obtain ⟨hclears, hbinds, hswaps⟩ := ih
    refine ⟨by rw [List.countP_append, hclear, hclears, Nat.add_comm], ?_, ?_⟩
    · exact fun hmem ↦ (List.mem_append.mp hmem).elim hbind hbinds
    · exact fun hmem ↦ (List.mem_append.mp hmem).elim hswap hswaps

theorem Rounds.calls_eq (h : Rounds conduct bounds n s calls t) : t.calls = s.calls ++ calls := by
  induction h with
  | nil => rw [List.append_nil]
  | cons _ _ hround _ ih =>
    rw [ih, hround.calls, List.append_assoc]
    rfl

theorem Rounds.blank (h : Rounds conduct bounds n s calls t) (hs : s.window.painter.Blank) :
    t.window.painter.Blank := by
  induction h with
  | nil => exact hs
  | cons _ _ hround _ ih => exact ih hround.blank

end

/-! ## All rounds -/

theorem wellFormed_taken {s : Pane W A} (hf : s.window.forest.WellFormed) : s.taken.window.forest.WellFormed :=
  (Forest.Alike.modify (fun _ ↦ by rfl) s.window.forest s.window.root).wellFormed hf

/-- The bounds of the root. -/
def bounds? (s : Pane W A) : Option Rect := (s.window.forest.node? s.window.root).map Node.bounds

theorem bounds?_taken (s : Pane W A) : s.taken.bounds? = s.bounds? := by
  unfold bounds? taken
  rw [Forest.node?_modify]
  cases s.window.forest.node? s.window.root <;> simp [Node.bounds]

theorem contains_of_bounds? {s : Pane W A} {bounds : Rect} (h : s.bounds? = some bounds) :
    s.window.forest.contains s.window.root = true := by
  obtain ⟨node, hnode, -⟩ := Option.map_eq_some_iff.mp h
  exact Forest.contains_iff.mpr ⟨node, hnode⟩

theorem Redrawn.bounds? {conduct : DrawingConduct W A} {bounds region : Rect} {s t : Pane W A}
    {calls : List DeviceCall} (h : Redrawn conduct bounds region s calls t) : t.bounds? = s.bounds? := by
  have hbounds : Forest.Alike Node.bounds s.window.forest t.window.forest :=
    h.setting.map fun setting ↦ setting.2.withOrigin .zero
  unfold Pane.bounds?
  rw [h.root]
  exact (hbounds.node? s.window.root).symm

theorem changeWindow_of_ok {step : Window W → Except Halt (Window W)} {s : Pane W A} {window : Window W}
    (h : step s.window = .ok window) : changeWindow step s = .ok () { s with window } := by
  unfold changeWindow
  rw [h]

/-- What is pending when no round is left is put back. -/
theorem exists_giveUp {s : Pane W A} {bounds : Rect} (hf : s.window.forest.WellFormed)
    (hbounds : s.bounds? = some bounds) (hclean : s.pending? = none) (region : Rect) :
    ∃ t, giveUp region s = .ok () t ∧ t.calls = s.calls ∧ t.window.painter = s.window.painter ∧
      t.pending? = some (region.intersection bounds) := by
  obtain ⟨node, hnode, rfl⟩ := Option.map_eq_some_iff.mp hbounds
  have hnone : node.invalidated = none := by simpa [pending?, hnode] using hclean
  obtain ⟨forest, hforest⟩ := hf.exists_invalidate (Forest.contains_iff.mpr ⟨node, hnode⟩) (some region)
  have hpending := hf.pending?_invalidate hnode hforest
  rw [hnone] at hpending
  let noted : Pane W A := Pass.final (noteAll [⟨.warning, .windows,
    "Terminating window invalidation loop after " ++ toString roundLimit ++ " runs"⟩] s)
  let putBack (w : Window W) : Except Halt (Window W) := w.changeForest fun f ↦ f.invalidate w.root (some region)
  have hback : putBack noted.window = .ok { s.window with forest } := bind_eq_ok.mpr ⟨forest, hforest, rfl⟩
  exact ⟨{ noted with window := { s.window with forest } }, changeWindow_of_ok hback, rfl, rfl, hpending⟩

/-- Rounds have come to their end, from the first state to the last, and so many of them were done. What comes behind
the last round leaves the device and the painter alone. -/
structure Ended (conduct : DrawingConduct W A) (bounds : Rect) (left n : Nat) (s : Pane W A) (calls : List DeviceCall)
    (last t : Pane W A) : Prop where
  atMost : n ≤ left
  rounds : Rounds conduct bounds n s calls last
  calls : t.calls = last.calls
  painter : t.window.painter = last.window.painter
  left : Left left n bounds last t

theorem Ended.cons {conduct : DrawingConduct W A} {bounds region : Rect} {left n : Nat} {s t last u : Pane W A}
    {sent calls : List DeviceCall} (hpending : s.pending? = some region) (hregion : region.isEmpty = false)
    (hround : Redrawn conduct bounds region s.taken sent t) (h : Ended conduct bounds left n t calls last u) :
    Ended conduct bounds (left + 1) (n + 1) s (sent ++ calls) last u where
  atMost := Nat.succ_le_succ h.atMost
  rounds := .cons hpending hregion hround h.rounds
  calls := h.calls
  painter := h.painter
  left := h.left.imp_right fun ⟨hn, hleft⟩ ↦ ⟨congrArg (· + 1) hn, hleft⟩

section

variable {conduct : DrawingConduct W A} {bounds : Rect}

/-- No round is done if nothing that shows is pending. -/
theorem exists_rounds_of_hidden {left : Nat} {drew : Bool} {s t : Pane W A}
    (hrun : rounds conduct .none bounds left drew s = .ok (.ok drew) t) (hcalls : t.calls = s.calls)
    (hpainter : t.window.painter = s.window.painter) (hclean : t.pending? = none)
    (hpending : ∀ region, s.pending? = some region → region.isEmpty = true) :
    ∃ n calls last u, rounds conduct .none bounds left drew s = .ok (.ok (drew || decide (0 < n))) u ∧
      Ended conduct bounds left n s calls last u :=
  ⟨0, [], s, t, hrun.trans (by simp), Nat.zero_le _, .nil s, hcalls, hpainter, .inl ⟨hclean, hpending⟩⟩

/-- No round is done if none is left, and what is pending is put back. -/
theorem exists_rounds_of_spent {drew : Bool} {s : Pane W A} {region : Rect} (hf : s.window.forest.WellFormed)
    (hbounds : s.bounds? = some bounds) (hpending : s.pending? = some region) : ∃ n calls last t,
      rounds conduct .none bounds 0 drew s = .ok (.ok (drew || decide (0 < n))) t ∧
        Ended conduct bounds 0 n s calls last t := by
  obtain ⟨t, hgiveUp, hcalls, hpainter, hleft⟩ :=
    exists_giveUp (wellFormed_taken hf) (s.bounds?_taken.trans hbounds) pending?_taken region
  refine ⟨0, [], s, t, ?_, Nat.le_refl _, .nil s, hcalls, hpainter, .inr ⟨rfl, region, hpending, hleft⟩⟩
  refine (Pass.bind_of_ok (takePending_eq (contains_of_bounds? hbounds))).trans ?_
  rw [hpending, decide_eq_false (Nat.lt_irrefl 0), Bool.or_false]
  exact Pass.bind_of_ok hgiveUp

/-- All rounds together. The induction is on how many there may be. -/
theorem exists_rounds (hconduct : conduct.Returning) (left : Nat) {s : Pane W A} (hf : s.window.forest.WellFormed)
    (hbounds : s.bounds? = some bounds) (drew : Bool) : ∃ n calls last t,
      rounds conduct .none bounds left drew s = .ok (.ok (drew || decide (0 < n))) t ∧
        Ended conduct bounds left n s calls last t := by
  induction left generalizing s drew with
  | zero =>
    have hroot := contains_of_bounds? hbounds
    cases hpending : s.pending? with
    | none =>
      exact exists_rounds_of_hidden (rounds_of_clean conduct .none hroot hpending _ _ _) rfl rfl pending?_taken
        (by simp [hpending])
    | some region => exact exists_rounds_of_spent hf hbounds hpending
  | succ left ih =>
    have hroot := contains_of_bounds? hbounds
    have hroot' : s.taken.window.forest.contains s.taken.window.root = true := contains_taken.trans hroot
    have hround := rounds_eq conduct .none bounds left drew hroot
    cases hpending : s.pending? with
    | none =>
      exact exists_rounds_of_hidden (rounds_of_clean conduct .none hroot hpending _ _ _) rfl rfl pending?_taken
        (by simp [hpending])
    | some region =>
      rw [hpending] at hround
      dsimp only at hround
      cases hregion : region.isEmpty with
      | true =>
        -- Nothing is drawn between taking the region and looking again, so the rounds end here.
        rw [hregion, if_pos rfl, rounds_of_clean conduct .none hroot' pending?_taken] at hround
        exact exists_rounds_of_hidden hround rfl rfl pending?_taken fun other hother ↦ by
          rwa [← Option.some.inj (hpending.symm.trans hother)]
      | false =>
        rw [hregion, if_neg Bool.false_ne_true] at hround
        obtain ⟨sent, t, hredrawn⟩ := exists_redrawn hconduct (wellFormed_taken hf) hroot' bounds region
        obtain ⟨n, calls, last, u, hrest, hended⟩ := ih
          ((hredrawn.setting.map Prod.fst).wellFormed (wellFormed_taken hf))
          (hredrawn.bounds?.trans (s.bounds?_taken.trans hbounds)) true
        refine ⟨n + 1, sent ++ calls, last, u, ?_, hended.cons hpending hregion hredrawn⟩
        rw [hround, Pass.bind_of_ok hredrawn.ran, decide_eq_true (Nat.succ_pos n), Bool.or_true]
        exact hrest

end

/-! ## Windows -/

theorem painter_onGrove {α : Type} (pass : Pass (Grove W A) α) :
    Pass.Carries (fun s : Pane W A ↦ s.window.painter) (· = ·) (onGrove pass) := by
  intro s
  unfold onGrove
  cases pass ⟨s.window.forest, s.ambient⟩ <;> rfl

section

variable {conduct : DrawingConduct W A} {outage : Outage} {bounds : Rect} {s t : Pane W A}

/-- A round that comes to its end leaves no quads behind, whether or not the device has refused something. -/
theorem blank_of_drawRound {region : Rect} {answer : Except Fault Unit}
    (h : drawRound conduct outage bounds region s = .ok answer t) : t.window.painter.Blank := by
  obtain ⟨_, cleared, -, h⟩ := Pass.bind_eq_ok.mp h
  obtain ⟨_, same, -, h⟩ := Pass.bind_eq_ok.mp h
  obtain ⟨_, drawn, -, h⟩ := Pass.bind_eq_ok.mp h
  cases h
  exact Painter.blank_clear _

theorem painter_takePending {region : Option Rect} (h : takePending s = .ok region t) :
    t.window.painter = s.window.painter := by
  have hkept := painter_onGrove (Grove.changeAsk fun f ↦ f.takeInvalidated s.window.root) s
  rw [show onGrove _ s = _ from h] at hkept
  exact hkept.symm

theorem painter_giveUp {region : Rect} (h : giveUp region s = .ok () t) : t.window.painter = s.window.painter := by
  obtain ⟨_, noted, hnoted, h⟩ := Pass.bind_eq_ok.mp h
  cases hnoted
  unfold changeWindow at h
  split at h
  case h_1 window hwindow =>
    cases h
    obtain ⟨_, -, rfl⟩ := changeForest_eq_ok hwindow
    rfl
  case h_2 => cases h

theorem blank_of_rounds {left : Nat} {drew : Bool} {answer : Except Fault Bool} (hs : s.window.painter.Blank)
    (h : rounds conduct outage bounds left drew s = .ok answer t) : t.window.painter.Blank := by
  induction left generalizing s drew with
  | zero =>
    obtain ⟨region, taken, hrun, h⟩ := Pass.bind_eq_ok.mp h
    have htaken : taken.window.painter.Blank := painter_takePending hrun ▸ hs
    cases region with
    | none =>
      cases h
      exact htaken
    | some region =>
      obtain ⟨_, left, hleft, h⟩ := Pass.bind_eq_ok.mp h
      cases h
      exact painter_giveUp hleft ▸ htaken
  | succ left ih =>
    obtain ⟨region, taken, hrun, h⟩ := Pass.bind_eq_ok.mp h
    have htaken : taken.window.painter.Blank := painter_takePending hrun ▸ hs
    cases region with
    | none =>
      cases h
      exact htaken
    | some region =>
      dsimp only at h
      split at h
      · exact ih htaken h
      · obtain ⟨fault, drawn, hdrawn, h⟩ := Pass.bind_eq_ok.mp h
        cases fault with
        | error fault =>
          cases h
          exact blank_of_drawRound hdrawn
        | ok _ => exact ih (blank_of_drawRound hdrawn) h

/-- A presentation that comes to its end leaves no quads behind. -/
theorem blank_of_present {answer : Except Fault Unit} (hs : s.window.painter.Blank)
    (h : present conduct outage s = .ok answer t) : t.window.painter.Blank := by
  by_cases hredraw : s.window.needsRedraw = .ok true
  · cases hbind : outage.bind with
    | some reason =>
      rw [present_of_refused conduct outage hredraw hbind] at h
      cases h
      exact hs
    | none =>
      obtain ⟨bounds, hpresent⟩ := present_of_bound conduct outage hredraw hbind
      rw [hpresent] at h
      obtain ⟨drew, last, hrounds, hfinish⟩ := Pass.bind_eq_ok.mp h
      have hlast : last.window = t.window := by simpa [hfinish] using window_finish outage drew last
      rw [← hlast]
      exact blank_of_rounds (s := s.bound) hs hrounds
  · rw [present_of_not_needsRedraw conduct outage hredraw] at h
    cases hanswer : s.window.needsRedraw with
    | error halt =>
      rw [hanswer] at h
      cases h
    | ok redraw =>
      rw [hanswer] at h
      cases h
      exact hs

end

/-- A window as a program comes upon it. Its painter was never drawn on when it was opened, and its first view was put
into an empty forest. Then its views were changed in any order, and it was presented every now and then. -/
inductive Lives : Pane W A → Prop where
  | opened {s : Pane W A} {config : PainterConfig} (hforest : Forest.Reaches .empty s.window.forest)
      (hpainter : s.window.painter = .ofConfig config) : Lives s
  | changed {s t : Pane W A} (h : Lives s) (hforest : s.window.forest.Reaches t.window.forest)
      (hpainter : t.window.painter = s.window.painter) : Lives t
  | presented {s t : Pane W A} {conduct : DrawingConduct W A} {outage : Outage} {answer : Except Fault Unit}
      (h : Lives s) (hrun : present conduct outage s = .ok answer t) : Lives t

namespace Lives

variable {s : Pane W A} (h : s.Lives)
include h

theorem wellFormed : s.window.forest.WellFormed := by
  induction h with
  | opened hforest _ => exact Forest.reachable_wellFormed hforest
  | changed _ hforest _ ih => exact hforest.wellFormed ih
  | @presented s t conduct outage _ _ hrun ih =>
    have hlinks := (presentable_upkeep conduct outage).present s
    rw [hrun] at hlinks
    exact (hlinks.map Prod.fst).wellFormed ih

theorem blank : s.window.painter.Blank := by
  induction h with
  | opened _ hpainter => exact hpainter ▸ Painter.blank_ofConfig _
  | changed _ _ hpainter ih => exact hpainter ▸ ih
  | presented _ hrun ih => exact blank_of_present ih hrun

end Lives

/-- On a device that refuses nothing, and with drawings that come to their end, every presentation of a window with a
live root comes to its end, and no quads are left. A window that is not shown, or whose root has nothing pending, stays
as it is. Else the device is bound, at most a fixed number of rounds is done, and the result is shown if any was done.
In every round the device is told to clear, every view that has a drawing is drawn once, and the painter is flushed.
Then the root is clean and nothing that shows was pending behind the last round, or all rounds there may be were done,
and what was pending behind the last one is pending again. -/
theorem present_in_rounds {conduct : DrawingConduct W A} (hconduct : conduct.Returning) {s : Pane W A}
    (hlives : s.Lives) {root : Node W} (hroot : s.window.forest.node? s.window.root = some root) :
    ∃ t, present conduct .none s = .ok (.ok ()) t ∧ t.window.painter.Blank ∧
      (s.window.state ≠ .shown ∨ s.pending? = none → t = s) ∧
      (s.window.state = .shown → s.pending? ≠ none → ∃ n calls last,
        n ≤ roundLimit ∧ Rounds conduct root.bounds n s.bound calls last ∧
        calls.countP DeviceCall.isClear = n ∧ .bind ∉ calls ∧ .swap ∉ calls ∧
        t.calls = s.calls ++ .bind :: (calls ++ if n = 0 then [] else [.swap]) ∧
        ((t.pending? = none ∧ ∀ region, last.pending? = some region → region.isEmpty = true) ∨
          n = roundLimit ∧ ∃ region, last.pending? = some region ∧
            t.pending? = some (region.intersection root.bounds))) := by
  have hlive : s.window.forest.contains s.window.root = true := Forest.contains_iff.mpr ⟨root, hroot⟩
  by_cases hidle : s.window.state ≠ .shown ∨ s.pending? = none
  · have hanswer : s.window.needsRedraw = .ok false := by
      rcases hidle with hhidden | hclean
      · exact if_neg hhidden
      · exact needsRedraw_of_clean hlive hclean
    have hpresent : present conduct .none s = .ok (.ok ()) s := by
      rw [present_of_not_needsRedraw conduct .none (by rw [hanswer]; simp), hanswer]
    exact ⟨s, hpresent, hlives.blank, fun _ ↦ rfl, fun hshown hpending ↦
      (hidle.elim (fun h ↦ h hshown) hpending).elim⟩
  · obtain ⟨hshown, hpending⟩ := not_or.mp hidle
    obtain ⟨region, hregion⟩ := Option.ne_none_iff_exists'.mp hpending
    have hinvalidated : root.invalidated = some region := by simpa [pending?, hroot] using hregion
    have hpresent := present_of_node conduct .none (not_not.mp hshown) hroot hinvalidated rfl
    have hbounds : s.bound.bounds? = some root.bounds := congrArg (Option.map Node.bounds) hroot
    obtain ⟨n, calls, last, t, hrounds, hended⟩ :=
      exists_rounds hconduct roundLimit (s := s.bound) hlives.wellFormed hbounds false
    obtain ⟨hclears, hbinds, hswaps⟩ := hended.rounds.countP_isClear
    have hblank : t.window.painter.Blank := hended.painter ▸ hended.rounds.blank hlives.blank
    have hcalls : t.calls = s.calls ++ .bind :: calls := by
      rw [hended.calls, hended.rounds.calls_eq, calls_bound, List.append_assoc]
      rfl
    rw [Bool.false_or] at hrounds
    rw [hpresent, Pass.bind_of_ok hrounds]
    cases n with
    | zero =>
      exact ⟨t, rfl, hblank, fun h ↦ absurd h hidle, fun _ _ ↦ ⟨0, calls, last, hended.atMost, hended.rounds, hclears,
        hbinds, hswaps, by simpa using hcalls, hended.left⟩⟩
    | succ n =>
      let swapped : Pane W A := { t with screen := t.screen.record .swap }
      have hswapped : swapped.calls = t.calls ++ [.swap] := Array.toList_push
      exact ⟨swapped, rfl, hblank, fun h ↦ absurd h hidle, fun _ _ ↦ ⟨n + 1, calls, last, hended.atMost,
        hended.rounds, hclears, hbinds, hswaps, by rw [hswapped, hcalls]; simp, hended.left⟩⟩

/-- The drawing of every widget is to be repeated at once. -/
def restless : DrawingConduct Unit Unit := fun _ ↦ some fun _ _ s ↦ .ok ((), true) s

/-- A shown window whose root has a widget and is to be painted. -/
def unpainted : Pane Unit Unit where
  window :=
    { id := ⟨1⟩
      title := ""
      forest := (Forest.empty.createWindow (.ofSides 0 0 100 100)).2.equipped () [⟨1⟩]
      root := ⟨1⟩
      queue := []
      redirects := .empty
      painter := .ofConfig .standard
      textures := .empty
      state := .shown
      closePolicy := .standard
      cursor := .zero
      modifiers := .none }
  screen :=
    { title := ""
      frame := .ofSides 0 0 100 100
      visible := true
      scaleFactor := 1
      released := false
      frameUpdates := 0
      preservesContents := true
      recorder := .fresh }
  ambient := ⟨#[], ()⟩

/-- All rounds there may be are done, and the root is still pending. -/
theorem present_in_rounds_restless : ∃ (t last : Pane Unit Unit) (root : Node Unit) (calls : List DeviceCall),
    present restless .none unpainted = .ok (.ok ()) t ∧ t.window.painter.Blank ∧
      Rounds restless root.bounds 5 unpainted.bound calls last ∧ calls.countP DeviceCall.isClear = 5 ∧
      t.calls = .bind :: (calls ++ [.swap]) ∧ t.pending? ≠ none := by
  have hreturning : restless.Returning := by
    rintro widget draw hdraw v frame s
    cases hdraw
    exact ⟨_, _, rfl⟩
  have hlives : unpainted.Lives :=
    .opened (((Forest.Reaches.refl .empty).step (.createWindow _ _)).equipped () [⟨1⟩]) rfl
  obtain ⟨root, hroot⟩ : ∃ root, unpainted.window.forest.node? unpainted.window.root = some root := ⟨_, rfl⟩
  obtain ⟨t, hpresent, hblank, -, hrounds⟩ := present_in_rounds hreturning hlives hroot
  have hleft : (Pass.final (present restless .none unpainted)).pending?.isSome = true := by decide +kernel
  rw [hpresent] at hleft
  have hpending : t.pending? ≠ none := Option.isSome_iff_ne_none.mp hleft
  obtain ⟨n, calls, last, -, hdone, hclears, -, -, hcalls, hend⟩ := hrounds rfl (by decide +kernel)
  obtain ⟨hclean, -⟩ | ⟨rfl, -⟩ := hend
  · exact absurd hclean hpending
  · exact ⟨t, last, root, calls, hpresent, hblank, hdone, hclears, hcalls, hpending⟩

end Pane

end RetainedUi
