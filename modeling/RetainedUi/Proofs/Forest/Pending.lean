import Mathlib.Data.Set.Basic
import RetainedUi.Proofs.Forest.Reachable
import RetainedUi.Proofs.Geometry.Box

/-!
# What is pending lies within the bounds

A region is clipped to the bounds of a view when it is added to what is pending there. Nothing clips it
again: a view that is made narrower or lower keeps what was pending, which may now reach beyond its
bounds, until the view is painted. That is the only way out of the bounds. What is pending lies within any
room that held all bounds of the view since it was last clean, whatever was done to the other views, and so
within its bounds if they were never wider or higher since then.

Frames and regions have whole coordinates here, so that no edge is moved by rounding.
-/

namespace RetainedUi

variable {W : Type}

namespace Forest

/-! ## Runs with whole coordinates -/

/-- A single operation, if its frames and regions have whole coordinates up to 2 ^ 20. A view gets only frames
that are admitted for it. -/
inductive WholeStep (admitted : View → Rect → Prop) : Forest W → Forest W → Prop where
  | rearrange (f : Forest W) {vacant : List Nat} (hperm : f.vacant.Perm vacant) :
      WholeStep admitted f { f with vacant }
  | grow (f : Forest W) :
      WholeStep admitted f { f with slots := f.slots.push none, vacant := f.slots.size :: f.vacant }
  | create (f : Forest W) {frame : Rect} (hframe : frame.IsWhole (2 ^ 20))
      (hadmitted : admitted (f.create frame).1 frame) : WholeStep admitted f (f.create frame).2
  | createWindow (f : Forest W) {frame : Rect} (hframe : frame.IsWhole (2 ^ 20))
      (hadmitted : admitted (f.createWindow frame).1 frame) : WholeStep admitted f (f.createWindow frame).2
  | addView {f g : Forest W} {parent child : View} (h : f.addView parent child = .ok (.ok g)) :
      WholeStep admitted f g
  | removeFromSuperview {f g : Forest W} {v : View} (h : f.removeFromSuperview v = .ok g) :
      WholeStep admitted f g
  | destroy {f g : Forest W} {v : View} (h : f.destroy v = .ok g) : WholeStep admitted f g
  | setFrame {f g : Forest W} {v : View} {frame : Rect} (hframe : frame.IsWhole (2 ^ 20))
      (hadmitted : admitted v frame) (h : f.setFrame v frame = .ok g) : WholeStep admitted f g
  | setTag {f g : Forest W} {v : View} {tag : Option String} (h : f.setTag v tag = .ok g) :
      WholeStep admitted f g
  | invalidate {f g : Forest W} {v : View} {region : Option Rect}
      (hregion : ∀ r, region = some r → r.IsWhole (2 ^ 20)) (h : f.invalidate v region = .ok g) :
      WholeStep admitted f g
  | requestLayout {f g : Forest W} {v : View} (h : f.requestLayout v = .ok g) : WholeStep admitted f g
  | leafViews {f g : Forest W} {v : View} {leaves : List Placed} (h : f.leafViews v = .ok (leaves, g)) :
      WholeStep admitted f g
  | windowOf {f g : Forest W} {v window : View} (h : f.windowOf v = .ok (window, g)) :
      WholeStep admitted f g
  | rootOf {f g : Forest W} {v root : View} (h : f.rootOf v = .ok (root, g)) : WholeStep admitted f g
  | setScaleFactor (f : Forest W) (scaleFactor : Float32) : WholeStep admitted f { f with scaleFactor }
  /-- What passes do as well: to widgets, to marks, to regions that are taken, and to whole views. -/
  | tend {f g : Forest W} (h : Tends f g) : WholeStep admitted f g

/-- The second forest comes from the first one by such operations and by passes, whose widgets do no other
operations. -/
inductive WholeReaches (admitted : View → Rect → Prop) : Forest W → Forest W → Prop where
  | refl (f : Forest W) : WholeReaches admitted f f
  | step {f g h : Forest W} (hfg : WholeReaches admitted f g) (hgh : WholeStep admitted g h) :
      WholeReaches admitted f h
  | settle {A : Type} {f : Forest W} {conduct : LayoutConduct W A}
      (hconduct : ∀ widget layout, conduct widget = some layout →
        ∀ v s, WholeReaches admitted s.forest (Pass.final (layout v s)).forest)
      (depth : Nat) (forced : Bool) (v : View) (s : Grove W A) (hfs : WholeReaches admitted f s.forest) :
      WholeReaches admitted f (Pass.final (settle conduct depth forced v s)).forest
  | draw {A : Type} {f : Forest W} (conduct : DrawingConduct W A) (v : View) (s : Studio W A)
      (hfs : WholeReaches admitted f s.forest) :
      WholeReaches admitted f (Pass.final (Studio.draw conduct v s)).forest
  | drawSubviews {A : Type} {f : Forest W} (conduct : DrawingConduct W A) (v : View) (s : Studio W A)
      (hfs : WholeReaches admitted f s.forest) :
      WholeReaches admitted f (Pass.final (Studio.drawSubviews conduct v s)).forest

variable {f g : Forest W} {admitted : View → Rect → Prop}

theorem WholeStep.step (h : WholeStep admitted f g) : Step f g := by
  cases h with
  | rearrange hperm => exact .rearrange f hperm
  | grow => exact .grow f
  | create => exact .create f _
  | createWindow => exact .createWindow f _
  | addView h => exact .addView h
  | removeFromSuperview h => exact .removeFromSuperview h
  | destroy h => exact .destroy h
  | setFrame _ _ h => exact .setFrame h
  | setTag h => exact .setTag h
  | invalidate _ h => exact .invalidate h
  | requestLayout h => exact .requestLayout h
  | leafViews h => exact .leafViews h
  | windowOf h => exact .windowOf h
  | rootOf h => exact .rootOf h
  | setScaleFactor => exact .setScaleFactor f _
  | tend h => exact h.step

/-- A run is a sequence of operations. -/
theorem WholeReaches.steps (h : WholeReaches admitted f g) :
    Relation.ReflTransGen (WholeStep admitted) f g := by
  have htends : ∀ f g : Forest W, Tends f g → Relation.ReflTransGen (WholeStep admitted) f g :=
    fun f g h ↦ .single (.tend h)
  induction h with
  | refl => exact .refl
  | step _ hstep ih => exact ih.tail hstep
  | settle _ depth forced v s _ hconduct ih =>
    exact ih.trans (carries_settle (fun f g h ↦ htends f g h.tends) hconduct depth forced v s)
  | draw conduct v s _ ih => exact ih.trans (Studio.carries_draw htends conduct v s)
  | drawSubviews conduct v s _ ih => exact ih.trans (Studio.carries_drawSubviews htends conduct v s)

end Forest

/-! ## The invariant -/

/-- The frame is whole, and the bounds and what is pending lie within each of the rooms. -/
structure Node.Sound (rooms : Set Rect) (node : Node W) : Prop where
  frame : node.frame.IsWhole (2 ^ 20)
  noLarger : ∀ room ∈ rooms, node.frame.NoLarger room
  pending : ∀ room ∈ rooms, ∀ region, node.invalidated = some region → region.Confined room

/-- What soundness depends on. -/
def Node.area (node : Node W) : Rect × Option Rect := (node.frame, node.invalidated)

namespace Node.Sound

variable {rooms : Set Rect}

theorem of_area {a b : Node W} (ha : a.Sound rooms) (h : b.area = a.area) : b.Sound rooms := by
  obtain ⟨hframe, hpending⟩ := Prod.mk.inj h
  constructor
  · rw [hframe]
    exact ha.frame
  · rw [hframe]
    exact ha.noLarger
  · rw [hpending]
    exact ha.pending

variable (hrooms : ∀ room ∈ rooms, room.IsWhole (2 ^ 20))
include hrooms

/-- What is pending after a part of the bounds is added. -/
theorem merge {node : Node W} (h : node.Sound rooms) {clipped : Rect} (hclipped : clipped.Confined node.frame) :
    ({ node with invalidated := some (Forest.merged node.invalidated clipped) } : Node W).Sound rooms := by
  refine ⟨h.frame, h.noLarger, fun room hroom region hregion ↦ ?_⟩
  cases hregion
  have hadded := hclipped.mono h.frame (hrooms room hroom) (h.noLarger room hroom)
  cases hpending : node.invalidated with
  | none => exact hadded
  | some existing => exact (h.pending room hroom existing hpending).union hadded (hrooms room hroom)

theorem detached {frame : Rect} (hframe : frame.IsWhole (2 ^ 20)) (hle : ∀ room ∈ rooms, frame.NoLarger room)
    (role : Role) : (Node.detached frame role : Node W).Sound rooms := by
  refine ⟨hframe, hle, fun room hroom region hregion ↦ ?_⟩
  cases hregion
  exact (Rect.confined_bounds hframe).mono hframe (hrooms room hroom) (hle room hroom)

end Node.Sound

namespace Forest

/-- All views are sound, each with regard to rooms of its own. -/
def Sound (rooms : View → Set Rect) (f : Forest W) : Prop :=
  ∀ v node, f.node? v = some node → node.Sound (rooms v)

namespace Sound

variable {f g : Forest W} {rooms : View → Set Rect}

section

variable (hf : f.Sound rooms)
include hf

theorem of_fewer (h : ∀ v node, g.node? v = some node → f.node? v = some node) : g.Sound rooms :=
  fun v node hnode ↦ hf v node (h v node hnode)

theorem of_alike (h : Alike Node.area f g) : g.Sound rooms := by
  intro v node hnode
  obtain ⟨other, hother, harea⟩ := h.symm.exists_node? hnode
  exact (hf v other hother).of_area harea.symm

theorem modify {v : View} {change : Node W → Node W}
    (hchange : ∀ node, f.node? v = some node → (change node).Sound (rooms v)) :
    (f.modify v change).Sound rooms := by
  intro w node hnode
  by_cases hw : w = v
  · subst hw
    rw [node?_modify, if_pos rfl] at hnode
    obtain ⟨old, hold, rfl⟩ := Option.map_eq_some_iff.mp hnode
    exact hchange old hold
  · rw [node?_modify_of_ne hw] at hnode
    exact hf w node hnode

theorem insert (hwell : f.WellFormed) {node : Node W} (hnode : node.Sound (rooms (f.insert node).1)) :
    (f.insert node).2.Sound rooms := by
  intro v found hfound
  rw [node?_insert hwell] at hfound
  split at hfound
  · rename_i hview
    cases hfound
    rw [hview]
    exact hnode.of_area rfl
  · exact hf v found hfound

theorem takeInvalidated {v : View} {region : Option Rect} (h : f.takeInvalidated v = .ok (region, g)) :
    g.Sound rooms := by
  simp only [Forest.takeInvalidated, bind_eq_ok, read_eq_ok] at h
  obtain ⟨node, -, h⟩ := h
  cases h
  refine hf.modify fun old hold ↦ ?_
  exact ⟨(hf v old hold).frame, (hf v old hold).noLarger, fun _ _ r hr ↦ by cases hr⟩

end

section

variable (hrooms : ∀ v, ∀ room ∈ rooms v, room.IsWhole (2 ^ 20)) (hf : f.Sound rooms)
include hrooms hf

/-! ## Painting -/

/-- Each view that a region reaches on the way up gets a part of its own bounds. -/
theorem invalidateUp {steps : Nat} {v : View} {region : Option Rect}
    (hregion : ∀ r, region = some r → r.IsWhole (2 ^ 21)) (h : invalidateUp steps f v region = .ok g) :
    g.Sound rooms := by
  induction steps generalizing f v region with
  | zero => cases h
  | succ steps ih =>
    simp only [Forest.invalidateUp, bind_eq_ok, read_eq_ok] at h
    obtain ⟨node, hnode, h⟩ := h
    have hframe := (hf v node hnode).frame
    have hwhole : (region.getD node.bounds).IsWhole (2 ^ 21) := by
      cases region with
      | none => exact hframe.bounds.mono (by decide)
      | some r => exact hregion r rfl
    have hclipped := Rect.confined_intersection hwhole hframe
    have hmarked : (f.modify v fun node' ↦ { node' with invalidated := some (merged node'.invalidated
        ((region.getD node.bounds).intersection node.bounds)) }).Sound rooms := by
      refine hf.modify fun old hold ↦ ?_
      obtain rfl : old = node := Option.some.inj (hold.symm.trans hnode)
      exact (hf v old hold).merge (hrooms v) hclipped
    split at h
    · cases h
      exact hmarked
    · rename_i hleft
      cases hup : node.superview with
      | none =>
        rw [hup] at h
        cases h
        exact hmarked
      | some above =>
        rw [hup] at h
        -- The translation takes the region out of the bounds, but the next view clips it before it is kept.
        refine ih hmarked (fun r hr ↦ ?_) h
        cases hr
        exact hclipped.isWhole_translated (Bool.eq_false_of_not_eq_true hleft) hframe

theorem invalidate {v : View} {region : Option Rect}
    (hregion : ∀ r, region = some r → r.IsWhole (2 ^ 20)) (h : f.invalidate v region = .ok g) :
    g.Sound rooms :=
  invalidateUp hrooms hf (fun r hr ↦ (hregion r hr).mono (by decide)) h

theorem tend (h : Tends f g) : g.Sound rooms := by
  cases h with
  | setWidget v widget => exact hf.of_alike (.modify (fun _ ↦ by rfl) f v)
  | unmark v => exact hf.of_alike (.modify (fun _ ↦ by rfl) f v)
  | takeInvalidated h => exact hf.takeInvalidated h
  | invalidate h => exact invalidate hrooms hf (fun r hr ↦ by cases hr) h

/-! ## Frames and links -/

/-- What was pending stays as it is, and what is added is clipped to the new bounds. -/
theorem setFrame {v : View} {frame : Rect} (hframe : frame.IsWhole (2 ^ 20))
    (hle : ∀ room ∈ rooms v, frame.NoLarger room) (h : f.setFrame v frame = .ok g) : g.Sound rooms := by
  simp only [setFrame_eq, bind_eq_ok, read_eq_ok] at h
  obtain ⟨node, hnode, h⟩ := h
  split at h
  · cases h
    exact hf
  · obtain ⟨sized, hsized, shown, hshown, h⟩ := by simpa only [bind_eq_ok] using h
    have hmoved : (f.modify v fun node ↦ { node with frame }).Sound rooms :=
      hf.modify fun old hold ↦ ⟨hframe, hle, (hf v old hold).pending⟩
    have hresized : sized.Sound rooms := by
      cases hsame : node.frame.size == frame.size with
      | true =>
        rw [hsame, cond_true, Except.ok.injEq] at hsized
        exact hsized ▸ hmoved
      | false =>
        rw [hsame, cond_false] at hsized
        exact hmoved.of_alike ((alike_of_requestLayout hsized).map Node.area)
    have hpainted : shown.Sound rooms := by
      cases hup : node.superview with
      | none =>
        rw [hup, Option.elim_none, Except.ok.injEq] at hshown
        exact hshown ▸ hresized
      | some above =>
        rw [hup, Option.elim_some] at hshown
        refine invalidate hrooms hresized (fun r hr ↦ ?_) hshown
        cases hr
        exact (hf v node hnode).frame
    exact invalidate hrooms hpainted (fun r hr ↦ by cases hr) h

theorem relinked {parent child : View} {frame : Rect} (hframe : frame.IsWhole (2 ^ 20))
    (h : f.relinked parent child frame = .ok g) : g.Sound rooms := by
  simp only [Forest.relinked, bind_eq_ok] at h
  obtain ⟨cleared, hcleared, unknown, hunknown, painted, hpainted, h⟩ := h
  have hsound : unknown.Sound rooms :=
    (hf.of_alike ((alike_of_clearLeafCaches hcleared).map Node.area)).of_alike
      ((alike_of_clearAncestorCaches hunknown).map Node.area)
  have hmarked : painted.Sound rooms := by
    refine invalidate hrooms hsound (fun r hr ↦ ?_) hpainted
    cases hr
    exact hframe
  exact hmarked.of_alike ((alike_of_requestLayout h).map Node.area)

theorem addView {parent child : View} (h : f.addView parent child = .ok (.ok g)) : g.Sound rooms := by
  obtain ⟨-, node, -, hnode, -, -, -, hrelinked⟩ := addView_cases h
  have hlinked : (f.link parent child).Sound rooms :=
    hf.of_alike ((Alike.modify (fun _ ↦ by rfl) f child).trans (.modify (fun _ ↦ by rfl) _ parent))
  exact relinked hrooms hlinked (hf child node hnode).frame hrelinked

theorem removeFromSuperview {v : View} (h : f.removeFromSuperview v = .ok g) : g.Sound rooms := by
  obtain ⟨node, hnode, ⟨-, rfl⟩ | ⟨parent, -, hrelinked⟩⟩ := removeFromSuperview_cases h
  · exact hf
  · have hunlinked : (f.unlink parent v).Sound rooms :=
      hf.of_alike ((Alike.modify (fun _ ↦ by rfl) f v).trans (.modify (fun _ ↦ by rfl) _ parent))
    exact relinked hrooms hunlinked (hf v node hnode).frame hrelinked

theorem destroy (hwell : f.WellFormed) {v : View} (h : f.destroy v = .ok g) : g.Sound rooms := by
  obtain ⟨-, rfl⟩ | ⟨mid, freed, hmid, -, -, hfreed, -⟩ := destroy_eq_ok hwell h
  · exact hf
  · refine (removeFromSuperview hrooms hf hmid).of_fewer fun w node hnode ↦ ?_
    rw [hfreed.node?] at hnode
    split at hnode
    · cases hnode
    · exact hnode

/-! ## Runs -/

variable {admitted : View → Rect → Prop}
  (hadmits : ∀ v frame, admitted v frame → ∀ room ∈ rooms v, frame.NoLarger room)
include hadmits

theorem step (hwell : f.WellFormed) (h : WholeStep admitted f g) : g.Sound rooms := by
  cases h with
  | rearrange => exact hf.of_fewer fun _ _ hnode ↦ hnode
  | grow => exact hf.of_fewer fun v node hnode ↦ node?_grow f v ▸ hnode
  | create hframe hadmitted =>
    exact hf.insert hwell (.detached (hrooms _) hframe (hadmits _ _ hadmitted) .plain)
  | createWindow hframe hadmitted =>
    exact hf.insert hwell (.detached (hrooms _) hframe (hadmits _ _ hadmitted) .window)
  | addView h => exact addView hrooms hf h
  | removeFromSuperview h => exact removeFromSuperview hrooms hf h
  | destroy h => exact destroy hrooms hf hwell h
  | setFrame hframe hadmitted h => exact setFrame hrooms hf hframe (hadmits _ _ hadmitted) h
  | setTag h => exact hf.of_alike (.update (fun _ ↦ by rfl) h)
  | invalidate hregion h => exact invalidate hrooms hf hregion h
  | requestLayout h => exact hf.of_alike ((alike_of_requestLayout h).map Node.area)
  | leafViews h => exact hf.of_alike ((alike_of_leafViews h).map Node.area)
  | windowOf h => exact hf.of_alike ((alike_of_windowOf h).map Node.area)
  | rootOf h => exact hf.of_alike ((alike_of_rootOf h).map Node.area)
  | setScaleFactor => exact hf.of_fewer fun _ _ hnode ↦ hnode
  | tend h => exact tend hrooms hf h

theorem reaches (hwell : f.WellFormed) (h : WholeReaches admitted f g) : g.WellFormed ∧ g.Sound rooms := by
  replace h := h.steps
  induction h with
  | refl => exact ⟨hwell, hf⟩
  | tail _ hstep ih => exact ⟨hstep.step.wellFormed ih.1, step hrooms ih.2 hadmits ih.1 hstep⟩

end

end Sound

/-- What is known of a view after an operation is found by running the operation. -/
theorem exists_of_area {outcome : Except Halt (Forest W)} {v : View} {area : Rect × Option Rect}
    (h : (outcome.toOption.bind fun g ↦ (g.node? v).map Node.area) = some area) :
    ∃ g node, outcome = .ok g ∧ g.node? v = some node ∧ node.frame = area.1 ∧ node.invalidated = area.2 := by
  obtain ⟨g, hg, hnode⟩ := Option.bind_eq_some_iff.mp h
  obtain ⟨node, hlive, rfl⟩ := Option.map_eq_some_iff.mp hnode
  refine ⟨g, node, ?_, hlive, rfl, rfl⟩
  cases outcome with
  | ok f => exact congrArg Except.ok (Option.some.inj hg)
  | error halt => cases hg

/-- Without rooms, soundness says that frames are whole. -/
theorem sound_of_wholeReaches {f : Forest W} (h : WholeReaches (fun _ _ ↦ True) empty f) :
    f.WellFormed ∧ f.Sound fun _ ↦ ∅ := by
  have hempty : (empty : Forest W).Sound fun _ ↦ ∅ := fun v node hnode ↦ by simp at hnode
  exact Sound.reaches (fun _ _ h ↦ h.elim) hempty (fun _ _ _ _ h ↦ h.elim) wellFormed_empty h

/-- What is pending in a view lies within its bounds, if at some point nothing was pending there and since then
the view was never wider or higher than it is now. Everything else may have been done to it and to all other
views. -/
theorem pending_within {start f : Forest W} {v : View} {node : Node W}
    (hstart : WholeReaches (fun _ _ ↦ True) empty start)
    (hclean : ∀ old, start.node? v = some old → old.invalidated = none ∧ old.frame.NoLarger node.frame)
    (hrun : WholeReaches (fun w frame ↦ w = v → frame.NoLarger node.frame) start f)
    (hnode : f.node? v = some node) {region : Rect} (hpending : node.invalidated = some region)
    (hregion : region.isEmpty = false) : region.Within node.bounds := by
  obtain ⟨hwell, hframes⟩ := sound_of_wholeReaches hstart
  have hwhole : node.frame.IsWhole (2 ^ 20) :=
    ((Sound.reaches (fun _ _ h ↦ h.elim) hframes (fun _ _ _ _ h ↦ h.elim) hwell hrun).2 v node hnode).frame
  -- The bounds at the end serve as the room of the view on the whole way.
  let rooms : View → Set Rect := fun w ↦ { room | w = v ∧ room = node.frame }
  have hrooms : ∀ w, ∀ room ∈ rooms w, room.IsWhole (2 ^ 20) := by
    rintro w room ⟨-, rfl⟩
    exact hwhole
  have hsound : start.Sound rooms := by
    refine fun w old hold ↦ ⟨(hframes w old hold).frame, ?_, ?_⟩
    · rintro room ⟨rfl, rfl⟩
      exact (hclean old hold).2
    · rintro room ⟨rfl, rfl⟩ r hr
      rw [(hclean old hold).1] at hr
      cases hr
  have hadmits : ∀ w (frame : Rect), (w = v → frame.NoLarger node.frame) →
      ∀ room ∈ rooms w, frame.NoLarger room := by
    rintro w frame hle room ⟨hw, rfl⟩
    exact hle hw
  have hend := (Sound.reaches hrooms hsound hadmits hwell hrun).2 v node hnode
  obtain hnone | ⟨-, hwithin⟩ := hend.pending node.frame ⟨rfl, rfl⟩ region hpending
  · rw [hregion] at hnone
    cases hnone
  · exact hwithin

/-- A clean view that is made smaller and gets its old size back has its bounds pending. -/
theorem pending_within_regrown : ∃ (start f : Forest Unit) (node : Node Unit) (region : Rect),
    WholeReaches (fun _ _ ↦ True) empty start ∧
      (∀ old, start.node? ⟨1⟩ = some old → old.invalidated = none ∧ old.frame.NoLarger node.frame) ∧
      WholeReaches (fun w frame ↦ w = ⟨1⟩ → frame.NoLarger node.frame) start f ∧ f.node? ⟨1⟩ = some node ∧
      node.invalidated = some region ∧ region.isEmpty = false ∧ region.Within node.bounds := by
  have hlarge : (Rect.ofSides 0 0 100 100).IsWhole (2 ^ 20) :=
    Rect.isWhole_square (n := 100) (by decide +kernel) (by decide)
  have hsmall : (Rect.ofSides 0 0 50 50).IsWhole (2 ^ 20) :=
    Rect.isWhole_square (n := 50) (by decide +kernel) (by decide)
  have hle : (Rect.ofSides 0 0 50 50).NoLarger (.ofSides 0 0 100 100) :=
    ⟨by decide +kernel, by decide +kernel⟩
  have hsame : (Rect.ofSides 0 0 100 100).NoLarger (.ofSides 0 0 100 100) :=
    ⟨by decide +kernel, by decide +kernel⟩
  let created : Forest Unit := ((empty : Forest Unit).create (.ofSides 0 0 100 100)).2
  let clean : Forest Unit := created.modify ⟨1⟩ fun node ↦ { node with invalidated := none }
  have htaken : created.takeInvalidated ⟨1⟩ = .ok (some (.ofSides 0 0 100 100), clean) := rfl
  have hstart : WholeReaches (fun _ _ ↦ True) empty clean :=
    ((WholeReaches.refl empty).step (.create _ hlarge trivial)).step (.tend (.takeInvalidated htaken))
  have hregrown : ((clean.setFrame ⟨1⟩ (.ofSides 0 0 50 50) >>= fun f ↦
      f.setFrame ⟨1⟩ (.ofSides 0 0 100 100)).toOption.bind fun g ↦ (g.node? ⟨1⟩).map Node.area) =
        some (.ofSides 0 0 100 100, some (.ofSides 0 0 100 100)) := by
    decide +kernel
  obtain ⟨f, node, hf, hnode, hframe, hpending⟩ := exists_of_area hregrown
  obtain ⟨mid, hmid, hf⟩ := bind_eq_ok.mp hf
  have hclean : ∀ old, clean.node? ⟨1⟩ = some old → old.invalidated = none ∧ old.frame.NoLarger node.frame := by
    intro old hold
    cases hold
    exact ⟨rfl, hframe ▸ hsame⟩
  have hrun : WholeReaches (fun w frame ↦ w = ⟨1⟩ → frame.NoLarger node.frame) clean f := by
    rw [hframe]
    exact ((WholeReaches.refl clean).step (.setFrame hsmall (fun _ ↦ hle) hmid)).step
      (.setFrame hlarge (fun _ ↦ hsame) hf)
  have hregion : (Rect.ofSides 0 0 100 100).isEmpty = false := by decide +kernel
  exact ⟨clean, f, node, _, hstart, hclean, hrun, hnode, hpending, hregion,
    pending_within hstart hclean hrun hnode hpending hregion⟩

/-- A view that is made smaller while it is still to be painted as a whole keeps its old bounds pending. -/
theorem pending_outside_shrunk : ∃ (f : Forest Unit) (node : Node Unit) (region : Rect),
    WholeReaches (fun _ _ ↦ True) empty f ∧ f.node? ⟨1⟩ = some node ∧ node.invalidated = some region ∧
      region.isEmpty = false ∧ ¬ region.Within node.bounds := by
  have hlarge : (Rect.ofSides 0 0 100 100).IsWhole (2 ^ 20) :=
    Rect.isWhole_square (n := 100) (by decide +kernel) (by decide)
  have hsmall : (Rect.ofSides 0 0 50 50).IsWhole (2 ^ 20) :=
    Rect.isWhole_square (n := 50) (by decide +kernel) (by decide)
  let created : Forest Unit := ((empty : Forest Unit).create (.ofSides 0 0 100 100)).2
  have hshrunk : ((created.setFrame ⟨1⟩ (.ofSides 0 0 50 50)).toOption.bind fun g ↦
      (g.node? ⟨1⟩).map Node.area) = some (.ofSides 0 0 50 50, some (.ofSides 0 0 100 100)) := by
    decide +kernel
  obtain ⟨f, node, hf, hnode, hframe, hpending⟩ := exists_of_area hshrunk
  have hrun : WholeReaches (fun _ _ ↦ True) empty f :=
    ((WholeReaches.refl empty).step (.create _ hlarge trivial)).step (.setFrame hsmall trivial hf)
  refine ⟨f, node, _, hrun, hnode, hpending, by decide +kernel, fun hwithin ↦ ?_⟩
  have hright := hwithin.right
  rw [Node.bounds, hframe] at hright
  exact absurd hright (by decide +kernel)

end Forest

end RetainedUi
