import RetainedUi.Paint.Draw
import RetainedUi.Proofs.Forest.Attachment

/-!
# Reachable forests

A forest is reached from another one by operations in any order: creations, changes of links, frames,
tags and widgets, invalidation, cached queries, and whole passes of layout and drawing. The layout of a
widget is itself a run of such operations, and of passes in turn; nothing else is known of it. A pass
that halts leaves the forest it had reached.

The store of slots is asked for very little. Before a creation it may rearrange what is vacant and add
slots, so the next view may get any slot that holds no node.

Every pass is a sequence of operations, so what each operation preserves holds of all reachable forests.
In particular they are well-formed, and no serial is given to a second view.
-/

namespace RetainedUi

variable {W A : Type}

namespace Forest

/-- A single operation on a forest. -/
inductive Step : Forest W → Forest W → Prop where
  | rearrange (f : Forest W) {vacant : List Nat} (hperm : f.vacant.Perm vacant) :
      Step f { f with vacant }
  | grow (f : Forest W) :
      Step f { f with slots := f.slots.push none, vacant := f.slots.size :: f.vacant }
  | create (f : Forest W) (frame : Rect) : Step f (f.create frame).2
  | createWindow (f : Forest W) (frame : Rect) : Step f (f.createWindow frame).2
  | addView {f g : Forest W} {parent child : View} (h : f.addView parent child = .ok (.ok g)) : Step f g
  | removeFromSuperview {f g : Forest W} {v : View} (h : f.removeFromSuperview v = .ok g) : Step f g
  | destroy {f g : Forest W} {v : View} (h : f.destroy v = .ok g) : Step f g
  | setFrame {f g : Forest W} {v : View} {frame : Rect} (h : f.setFrame v frame = .ok g) : Step f g
  | setTag {f g : Forest W} {v : View} {tag : Option String} (h : f.setTag v tag = .ok g) : Step f g
  /-- Puts a widget in, or takes it out. -/
  | setWidget (f : Forest W) (v : View) (widget : Option W) :
      Step f (f.modify v fun node ↦ { node with widget })
  | invalidate {f g : Forest W} {v : View} {region : Option Rect} (h : f.invalidate v region = .ok g) :
      Step f g
  | takeInvalidated {f g : Forest W} {v : View} {region : Option Rect}
      (h : f.takeInvalidated v = .ok (region, g)) : Step f g
  | requestLayout {f g : Forest W} {v : View} (h : f.requestLayout v = .ok g) : Step f g
  /-- Takes the mark away from a view that is laid out. -/
  | unmark (f : Forest W) (v : View) : Step f (f.modify v fun node ↦ { node with needsLayout := false })
  | leafViews {f g : Forest W} {v : View} {leaves : List Placed} (h : f.leafViews v = .ok (leaves, g)) :
      Step f g
  | windowOf {f g : Forest W} {v window : View} (h : f.windowOf v = .ok (window, g)) : Step f g
  | rootOf {f g : Forest W} {v root : View} (h : f.rootOf v = .ok (root, g)) : Step f g
  | setScaleFactor (f : Forest W) (scaleFactor : Float32) : Step f { f with scaleFactor }

/-- The second forest comes from the first one by operations and passes, whatever the widgets do. -/
inductive Reaches : Forest W → Forest W → Prop where
  | refl (f : Forest W) : Reaches f f
  | step {f g h : Forest W} (hfg : Reaches f g) (hgh : Step g h) : Reaches f h
  /-- Layout of a view, forced or not, with widgets that do to the forest what a run may do to it. -/
  | settle {A : Type} {f : Forest W} {conduct : LayoutConduct W A}
      (hconduct : ∀ widget layout, conduct widget = some layout →
        ∀ v s, Reaches s.forest (Pass.final (layout v s)).forest)
      (depth : Nat) (forced : Bool) (v : View) (s : Grove W A) (hfs : Reaches f s.forest) :
      Reaches f (Pass.final (settle conduct depth forced v s)).forest
  | draw {A : Type} {f : Forest W} (conduct : DrawingConduct W A) (v : View) (s : Studio W A)
      (hfs : Reaches f s.forest) : Reaches f (Pass.final (Studio.draw conduct v s)).forest
  | drawSubviews {A : Type} {f : Forest W} (conduct : DrawingConduct W A) (v : View) (s : Studio W A)
      (hfs : Reaches f s.forest) : Reaches f (Pass.final (Studio.drawSubviews conduct v s)).forest

/-- Operations one after the other. -/
abbrev Steps : Forest W → Forest W → Prop := Relation.ReflTransGen Step

end Forest

/-! ## Passes as operations -/

section

variable {α : Type} {R : Forest W → Forest W → Prop} [IsPreorder (Forest W) R]

namespace Grove

theorem carries_ask (question : Forest W → Except Halt α) :
    Pass.Carries Grove.forest R (ask question : Pass (Grove W A) α) :=
  Pass.carries_bind Pass.carries_get fun s ↦ Pass.carries_lift (question s.forest)

theorem carries_change {step : Forest W → Except Halt (Forest W)}
    (hstep : ∀ f g, step f = .ok g → R f g) :
    Pass.Carries Grove.forest R (change step : Pass (Grove W A) Unit) := by
  intro s
  unfold change
  cases hrun : step s.forest with
  | ok g => exact hstep s.forest g hrun
  | error halt => exact refl_of R s.forest

theorem carries_changeAsk {step : Forest W → Except Halt (α × Forest W)}
    (hstep : ∀ f a g, step f = .ok (a, g) → R f g) :
    Pass.Carries Grove.forest R (changeAsk step : Pass (Grove W A) α) := by
  intro s
  unfold changeAsk
  cases hrun : step s.forest with
  | ok answer => exact hstep s.forest answer.1 answer.2 hrun
  | error halt => exact refl_of R s.forest

end Grove

namespace Studio

omit [IsPreorder (Forest W) R] in
theorem carries_onGrove {pass : Pass (Grove W A) α} (h : Pass.Carries Grove.forest R pass) :
    Pass.Carries Studio.forest R (onGrove pass) := by
  intro s
  have hs := h ⟨s.forest, s.ambient⟩
  unfold onGrove
  cases hrun : pass ⟨s.forest, s.ambient⟩ <;> simpa [hrun] using hs

/-- What only draws leaves the forest as it is. -/
theorem carries_onCanvas (pass : Pass (Canvas A) α) :
    Pass.Carries Studio.forest R (onCanvas pass : Pass (Studio W A) α) := by
  intro s
  unfold onCanvas
  cases hrun : pass ⟨s.painter, s.ambient⟩ <;> exact refl_of R s.forest

theorem carries_onPainter (step : Painter → Painter) :
    Pass.Carries Studio.forest R (onPainter step : Pass (Studio W A) Unit) :=
  fun s ↦ refl_of R s.forest

theorem carries_read (v : View) :
    Pass.Carries Studio.forest R (read v : Pass (Studio W A) (Node W)) :=
  carries_onGrove (Grove.carries_ask _)

end Studio

end

namespace Forest

/-- What a pass does by itself: it takes marks and pending regions away, takes widgets out and puts them
back, and has views painted again as a whole. -/
inductive Tends : Forest W → Forest W → Prop where
  | setWidget (f : Forest W) (v : View) (widget : Option W) :
      Tends f (f.modify v fun node ↦ { node with widget })
  | unmark (f : Forest W) (v : View) : Tends f (f.modify v fun node ↦ { node with needsLayout := false })
  | takeInvalidated {f g : Forest W} {v : View} {region : Option Rect}
      (h : f.takeInvalidated v = .ok (region, g)) : Tends f g
  | invalidate {f g : Forest W} {v : View} (h : f.invalidate v none = .ok g) : Tends f g

theorem Tends.step {f g : Forest W} (h : Tends f g) : Step f g := by
  cases h with
  | setWidget v widget => exact .setWidget f v widget
  | unmark v => exact .unmark f v
  | takeInvalidated h => exact .takeInvalidated h
  | invalidate h => exact .invalidate h

theorem tends_setWidget {f g : Forest W} {v : View} {widget : Option W}
    (h : f.update v (fun node ↦ { node with widget }) = .ok g) : Tends f g := by
  obtain ⟨-, rfl⟩ := update_eq_ok.mp h
  exact .setWidget f v widget

/-- What layout does by itself. -/
inductive Lays : Forest W → Forest W → Prop where
  | setWidget (f : Forest W) (v : View) (widget : Option W) :
      Lays f (f.modify v fun node ↦ { node with widget })
  | unmark (f : Forest W) (v : View) : Lays f (f.modify v fun node ↦ { node with needsLayout := false })

theorem Lays.tends {f g : Forest W} (h : Lays f g) : Tends f g := by
  cases h with
  | setWidget v widget => exact .setWidget f v widget
  | unmark v => exact .unmark f v

theorem lays_setWidget {f g : Forest W} {v : View} {widget : Option W}
    (h : f.update v (fun node ↦ { node with widget }) = .ok g) : Lays f g := by
  obtain ⟨-, rfl⟩ := update_eq_ok.mp h
  exact .setWidget f v widget

theorem lays_unmark {f g : Forest W} {v : View}
    (h : f.update v (fun node ↦ { node with needsLayout := false }) = .ok g) : Lays f g := by
  obtain ⟨-, rfl⟩ := update_eq_ok.mp h
  exact .unmark f v

/-- What drawing does by itself. Views are to be painted again only if some of them may ask for it. -/
inductive Paints (again : Prop) : Forest W → Forest W → Prop where
  | setWidget (f : Forest W) (v : View) (widget : Option W) :
      Paints again f (f.modify v fun node ↦ { node with widget })
  | takeInvalidated {f g : Forest W} {v : View} {region : Option Rect}
      (h : f.takeInvalidated v = .ok (region, g)) : Paints again f g
  | invalidate {f g : Forest W} {v : View} (hagain : again) (h : f.invalidate v none = .ok g) : Paints again f g

theorem Paints.tends {again : Prop} {f g : Forest W} (h : Paints again f g) : Tends f g := by
  cases h with
  | setWidget v widget => exact .setWidget f v widget
  | takeInvalidated h => exact .takeInvalidated h
  | invalidate _ h => exact .invalidate h

theorem paints_setWidget {again : Prop} {f g : Forest W} {v : View} {widget : Option W}
    (h : f.update v (fun node ↦ { node with widget }) = .ok g) : Paints again f g := by
  obtain ⟨-, rfl⟩ := update_eq_ok.mp h
  exact .setWidget f v widget

theorem paints_clean {again : Prop} {f g : Forest W} {v : View}
    (h : f.update v (fun node ↦ { node with invalidated := none }) = .ok g) : Paints again f g := by
  obtain ⟨hlive, rfl⟩ := update_eq_ok.mp h
  obtain ⟨node, hnode⟩ := contains_iff.mp hlive
  have htaken : f.takeInvalidated v =
      .ok (node.invalidated, f.modify v fun node ↦ { node with invalidated := none }) := by
    simp [takeInvalidated, read_eq_ok.mpr hnode, bind, Except.bind, pure, Except.pure]
  exact .takeInvalidated htaken

end Forest

section

variable {R : Forest W → Forest W → Prop} [IsPreorder (Forest W) R]
  (hR : ∀ f g, Forest.Lays f g → R f g)
include hR

namespace Forest

variable {conduct : LayoutConduct W A}
  (hconduct : ∀ widget layout, conduct widget = some layout → ∀ v, Pass.Carries Grove.forest R (layout v))
include hconduct

theorem carries_arrange (v : View) : Pass.Carries Grove.forest R (arrange conduct v) := by
  have hback (widget : W) : Pass.Carries Grove.forest R (Grove.change (A := A) fun f ↦
      .ok (f.modify v fun node ↦ { node with widget := some widget })) :=
    Grove.carries_change fun f g h ↦ hR f g (by cases h; exact .setWidget f v (some widget))
  unfold arrange
  refine Pass.carries_bind (Grove.carries_change fun f g h ↦ hR f g (lays_unmark h)) fun _ ↦ ?_
  refine Pass.carries_bind (Grove.carries_ask _) fun node ↦ ?_
  cases node.widget with
  | none => exact Pass.carries_pure ()
  | some widget =>
    refine Pass.carries_bind (Grove.carries_change fun f g h ↦ hR f g (lays_setWidget h)) fun _ ↦ ?_
    cases hlayout : conduct widget with
    | none => exact hback widget
    | some layout => exact Pass.carries_bind (hconduct widget layout hlayout v) hback

theorem carries_settle (depth : Nat) (forced : Bool) (v : View) :
    Pass.Carries Grove.forest R (settle conduct depth forced v) := by
  induction depth generalizing forced v with
  | zero => exact Pass.carries_throw Halt.exhausted
  | succ depth ih =>
    have hbelow : Pass.Carries Grove.forest R (do
        let node ← Grove.ask fun f ↦ f.read v
        node.subviews.forM fun sub ↦ settle conduct depth false sub) :=
      Pass.carries_bind (Grove.carries_ask _) fun node ↦ Pass.carries_forM (ih false) node.subviews
    unfold settle
    refine Pass.carries_bind (Grove.carries_ask _) fun node ↦ ?_
    split
    · exact Pass.carries_bind (carries_arrange hR hconduct v) fun _ ↦ hbelow
    · exact hbelow

end Forest

end

namespace Studio

section

variable {R : Forest W → Forest W → Prop} [IsPreorder (Forest W) R]

theorem carriesTo_onCanvas {α : Type} {pass : Pass (Canvas A) α} {Q : α → Prop}
    (h : ∀ s answer t, pass s = .ok answer t → Q answer) :
    Pass.CarriesTo Studio.forest R Q (onCanvas pass : Pass (Studio W A) α) := by
  refine ⟨carries_onCanvas pass, fun s answer t hrun ↦ ?_⟩
  unfold onCanvas at hrun
  cases hpass : pass ⟨s.painter, s.ambient⟩ with
  | ok found canvas =>
    rw [hpass] at hrun
    cases hrun
    exact h _ _ _ hpass
  | error halt canvas =>
    rw [hpass] at hrun
    cases hrun

theorem carries_shifted {draw : View → Pass (Studio W A) Unit}
    (hdraw : ∀ sub, Pass.Carries Studio.forest R (draw sub)) (sub : View) :
    Pass.Carries Studio.forest R (shifted draw sub) := by
  unfold shifted
  refine Pass.carries_bind (carries_read sub) fun node ↦ ?_
  refine Pass.carries_bind Pass.carries_get fun s ↦ ?_
  refine Pass.carries_bind (carries_onPainter _) fun _ ↦ ?_
  exact Pass.carries_bind (hdraw sub) fun _ ↦ carries_onPainter _

variable {again : Prop} (hR : ∀ f g, Forest.Paints again f g → R f g)
include hR

theorem carries_change {step : Forest W → Except Halt (Forest W)}
    (hstep : ∀ f g, step f = .ok g → Forest.Paints again f g) :
    Pass.Carries Studio.forest R (change step : Pass (Studio W A) Unit) :=
  carries_onGrove (Grove.carries_change fun f g h ↦ hR f g (hstep f g h))

variable {conduct : DrawingConduct W A} (hconduct : ∀ widget draw, conduct widget = some draw →
  ∀ v frame s answer t, draw v frame s = .ok answer t → answer.2 = true → again)
include hconduct

theorem carriesTo_drawSelf (v : View) :
    Pass.CarriesTo Studio.forest R (fun asks ↦ asks = true → again) (drawSelf conduct v) := by
  have hback (widget : W) {asks : Bool} (hasks : asks = true → again) :
      Pass.CarriesTo Studio.forest R (fun asks ↦ asks = true → again) (do
        change (A := A) fun f ↦ f.update v fun node ↦ { node with widget := some widget }
        return asks) :=
    Pass.carriesTo_bind (carries_change hR fun f g h ↦ Forest.paints_setWidget h).to fun _ _ ↦
      Pass.carriesTo_pure hasks
  unfold drawSelf
  refine Pass.carriesTo_bind (carries_change hR fun f g h ↦ Forest.paints_clean h).to fun _ _ ↦ ?_
  refine Pass.carriesTo_bind (carries_read v).to fun node _ ↦ ?_
  cases node.widget with
  | none => exact Pass.carriesTo_pure (by simp)
  | some widget =>
    refine Pass.carriesTo_bind (carries_change hR fun f g h ↦ Forest.paints_setWidget h).to fun _ _ ↦ ?_
    cases hdraw : conduct widget with
    | none => exact hback widget (by simp)
    | some draw =>
      exact Pass.carriesTo_bind (carriesTo_onCanvas (hconduct widget draw hdraw v node.frame)) fun answer hasks ↦
        hback answer.1 hasks

theorem carries_drawTree (depth : Nat) (v : View) : Pass.Carries Studio.forest R (drawTree conduct depth v) := by
  induction depth generalizing v with
  | zero => exact Pass.carries_throw Halt.exhausted
  | succ depth ih =>
    suffices h : Pass.CarriesTo Studio.forest R (fun _ ↦ True) (drawTree conduct (depth + 1) v) from h.1
    unfold drawTree
    refine Pass.carriesTo_bind (carriesTo_drawSelf hR hconduct v) fun asks hasks ↦ ?_
    refine (Pass.carries_bind (carries_read v) fun node ↦ ?_).to
    refine Pass.carries_bind (Pass.carries_forM (carries_shifted ih) node.subviews) fun _ ↦ ?_
    split
    case isTrue hagain => exact carries_change hR fun f g h ↦ .invalidate (hasks hagain) h
    case isFalse => exact Pass.carries_pure ()

/-- What drawing carries if views may ask for it again, or if they never do. -/
theorem carries_draw_of_paints (v : View) : Pass.Carries Studio.forest R (draw conduct v) :=
  Pass.carries_bind Pass.carries_get fun s ↦ carries_drawTree hR hconduct s.forest.slots.size v

end

section

variable {R : Forest W → Forest W → Prop} [IsPreorder (Forest W) R]
  (hR : ∀ f g, Forest.Tends f g → R f g)
include hR

theorem carries_draw (conduct : DrawingConduct W A) (v : View) :
    Pass.Carries Studio.forest R (draw conduct v) :=
  carries_draw_of_paints (fun f g (h : Forest.Paints True f g) ↦ hR f g h.tends)
    (fun _ _ _ _ _ _ _ _ _ _ ↦ trivial) v

theorem carries_drawSubviews (conduct : DrawingConduct W A) (v : View) :
    Pass.Carries Studio.forest R (drawSubviews conduct v) := by
  unfold drawSubviews
  refine Pass.carries_bind Pass.carries_get fun s ↦ ?_
  refine Pass.carries_bind (carries_read v) fun node ↦ ?_
  have htree (sub : View) : Pass.Carries Studio.forest R (drawTree conduct s.forest.slots.size sub) :=
    carries_drawTree (fun f g (h : Forest.Paints True f g) ↦ hR f g h.tends)
      (fun _ _ _ _ _ _ _ _ _ _ ↦ trivial) s.forest.slots.size sub
  exact Pass.carries_forM (carries_shifted htree) node.subviews

end

end Studio

namespace Forest

/-! ## Operations that change the shape -/

/-- The operations that change links or slots. -/
inductive Reshapes : Forest W → Forest W → Prop where
  | rearrange (f : Forest W) {vacant : List Nat} (hperm : f.vacant.Perm vacant) :
      Reshapes f { f with vacant }
  | grow (f : Forest W) :
      Reshapes f { f with slots := f.slots.push none, vacant := f.slots.size :: f.vacant }
  | insert (f : Forest W) (frame : Rect) (role : Role) : Reshapes f (f.insert (.detached frame role)).2
  | addView {f g : Forest W} {parent child : View} (h : f.addView parent child = .ok (.ok g)) :
      Reshapes f g
  | removeFromSuperview {f g : Forest W} {v : View} (h : f.removeFromSuperview v = .ok g) : Reshapes f g
  | destroy {f g : Forest W} {v : View} (h : f.destroy v = .ok g) : Reshapes f g

/-- An operation changes the shape, or is a cached query, or changes nothing that such a query looks at. -/
theorem Step.cases_standing {f g : Forest W} (h : Step f g) :
    Reshapes f g ∨ (∃ v leaves, f.leafViews v = .ok (leaves, g)) ∨ (∃ v window, f.windowOf v = .ok (window, g)) ∨
      (∃ v root, f.rootOf v = .ok (root, g)) ∨ Alike Node.standing f g := by
  have hsame (h : Alike Node.standing f g) : Reshapes f g ∨ (∃ v leaves, f.leafViews v = .ok (leaves, g)) ∨
      (∃ v window, f.windowOf v = .ok (window, g)) ∨ (∃ v root, f.rootOf v = .ok (root, g)) ∨
        Alike Node.standing f g := .inr (.inr (.inr (.inr h)))
  cases h with
  | rearrange hperm => exact .inl (.rearrange f hperm)
  | grow => exact .inl (.grow f)
  | create frame => exact .inl (.insert f frame .plain)
  | createWindow frame => exact .inl (.insert f frame .window)
  | addView h => exact .inl (.addView h)
  | removeFromSuperview h => exact .inl (.removeFromSuperview h)
  | destroy h => exact .inl (.destroy h)
  | leafViews h => exact .inr (.inl ⟨_, _, h⟩)
  | windowOf h => exact .inr (.inr (.inl ⟨_, _, h⟩))
  | rootOf h => exact .inr (.inr (.inr (.inl ⟨_, _, h⟩)))
  | setFrame h => exact hsame ((alike_of_setFrame h).map Node.standing)
  | setTag h => exact hsame (Alike.update (fun _ ↦ by rfl) h)
  | setWidget v widget => exact hsame (Alike.modify (fun _ ↦ by rfl) f v)
  | invalidate h => exact hsame ((alike_of_invalidate h).map Node.standing)
  | takeInvalidated h => exact hsame ((alike_of_takeInvalidated h).map Node.standing)
  | requestLayout h => exact hsame ((alike_of_requestLayout h).map Node.standing)
  | unmark v => exact hsame (Alike.modify (fun _ ↦ by rfl) f v)
  | setScaleFactor => exact hsame ⟨rfl, rfl, rfl⟩

/-- An operation changes the shape, or keeps the links. Only the query for the leaves changes what is
known of them without changing the shape. -/
theorem Step.cases_shape {f g : Forest W} (h : Step f g) :
    Reshapes f g ∨ (∃ v leaves, f.leafViews v = .ok (leaves, g)) ∨ Alike Node.shape f g := by
  rcases h.cases_standing with h | h | ⟨v, window, h⟩ | ⟨v, root, h⟩ | h
  · exact .inl h
  · exact .inr (.inl h)
  · exact .inr (.inr ((alike_of_windowOf h).map Node.shape))
  · exact .inr (.inr ((alike_of_rootOf h).map Node.shape))
  · exact .inr (.inr (h.map Prod.fst))

/-- An operation that does not change the shape keeps the links. -/
theorem Step.reshapes_or_alike {f g : Forest W} (h : Step f g) : Reshapes f g ∨ Alike Node.links f g := by
  rcases h.cases_shape with h | ⟨v, leaves, h⟩ | h
  · exact .inl h
  · exact .inr ((alike_of_leafViews h).map Node.links)
  · exact .inr (h.map Prod.fst)

/-! ## Invariants of reachable forests -/

variable {f g h : Forest W}

/-- A run is a sequence of operations, and the other way round. -/
theorem reaches_iff : Reaches f g ↔ Steps f g := by
  have htends : ∀ f g : Forest W, Tends f g → Steps f g := fun f g h ↦ .single h.step
  constructor
  · intro h
    induction h with
    | refl => exact .refl
    | step _ hstep ih => exact ih.tail hstep
    | settle _ depth forced v s _ hconduct ih =>
      exact ih.trans (carries_settle (fun f g h ↦ htends f g h.tends) hconduct depth forced v s)
    | draw conduct v s _ ih => exact ih.trans (Studio.carries_draw htends conduct v s)
    | drawSubviews conduct v s _ ih => exact ih.trans (Studio.carries_drawSubviews htends conduct v s)
  · intro h
    induction h with
    | refl => exact .refl f
    | tail _ hstep ih => exact .step ih hstep

theorem Reaches.trans (hfg : Reaches f g) (hgh : Reaches g h) : Reaches f h :=
  reaches_iff.mpr ((reaches_iff.mp hfg).trans (reaches_iff.mp hgh))

/-- What holds at the start of a run and is preserved by every operation holds at its end. -/
theorem Reaches.preserves {P : Forest W → Prop} (hstep : ∀ f g, P f → Step f g → P g)
    (hfg : Reaches f g) (hf : P f) : P g := by
  rw [reaches_iff] at hfg
  induction hfg with
  | refl => exact hf
  | tail _ hlast ih => exact hstep _ _ ih hlast

@[simp]
theorem node?_empty (v : View) : (empty : Forest W).node? v = none := by
  by_cases hzero : v.index = 0 <;> simp [node?, empty, hzero]

theorem wellFormed_empty : (empty : Forest W).WellFormed where
  dummy := ⟨.detached .zero .plain, rfl, rfl, rfl⟩
  vacant := by simp [empty]
  vacant_nodup := List.nodup_nil
  serial_le := by simp [serial?]
  serial_inj := by simp [serial?]
  linked := by simp [superview?, subviewsOf]
  subviews_nodup := by simp [subviewsOf]
  rooted := ⟨fun v ↦ .intro v fun p hp ↦ by simp [Above, superview?] at hp⟩

theorem node?_grow (f : Forest W) (v : View) :
    ({ f with slots := f.slots.push none, vacant := f.slots.size :: f.vacant } : Forest W).node? v =
      f.node? v := by
  by_cases hlast : v.index = f.slots.size
  · simp [node?, hlast]
  · simp [node?, Array.getElem?_push, hlast]

theorem wellFormed_grow (hf : f.WellFormed) :
    ({ f with slots := f.slots.push none, vacant := f.slots.size :: f.vacant } : Forest W).WellFormed where
  dummy := by
    obtain ⟨dummy, hdummy, hlinks⟩ := hf.dummy
    have hsize := hf.size_slots_ne_zero
    exact ⟨dummy, by rw [Array.getElem?_push, if_neg (Ne.symm hsize), hdummy], hlinks⟩
  vacant := by
    refine List.forall_mem_cons.mpr ⟨by simp, fun slot hslot ↦ ?_⟩
    rw [Array.getElem?_push]
    split
    · rfl
    · exact hf.vacant slot hslot
  vacant_nodup := by
    refine List.nodup_cons.mpr ⟨fun hmem ↦ ?_, hf.vacant_nodup⟩
    simpa using hf.vacant f.slots.size hmem
  serial_le v serial hv := hf.serial_le v serial (by simpa [serial?, node?_grow] using hv)
  serial_inj v w serial hv hw :=
    hf.serial_inj v w serial (by simpa [serial?, node?_grow] using hv)
      (by simpa [serial?, node?_grow] using hw)
  linked p c := by simpa [superview?, subviewsOf, node?_grow] using hf.linked p c
  subviews_nodup p := by simpa [subviewsOf, node?_grow] using hf.subviews_nodup p
  rooted := rooted_of_fewer hf.rooted fun c p hup ↦ by simpa [superview?, node?_grow] using hup

theorem wellFormed_rearrange (hf : f.WellFormed) {vacant : List Nat} (hperm : f.vacant.Perm vacant) :
    ({ f with vacant } : Forest W).WellFormed where
  dummy := hf.dummy
  vacant slot hslot := hf.vacant slot (hperm.mem_iff.mpr hslot)
  vacant_nodup := hperm.nodup_iff.mp hf.vacant_nodup
  serial_le := hf.serial_le
  serial_inj := hf.serial_inj
  linked := hf.linked
  subviews_nodup := hf.subviews_nodup
  rooted := hf.rooted

theorem Reshapes.wellFormed (h : Reshapes f g) (hf : f.WellFormed) : g.WellFormed := by
  cases h with
  | rearrange hperm => exact wellFormed_rearrange hf hperm
  | grow => exact wellFormed_grow hf
  | insert => exact wellFormed_insert hf rfl rfl
  | addView h => exact wellFormed_addView hf h
  | removeFromSuperview h => exact wellFormed_removeFromSuperview hf h
  | destroy h => exact wellFormed_destroy hf h

theorem Step.wellFormed (h : Step f g) (hf : f.WellFormed) : g.WellFormed := by
  rcases h.reshapes_or_alike with h | h
  · exact h.wellFormed hf
  · exact h.wellFormed hf

theorem Reaches.wellFormed (hfg : Reaches f g) (hf : f.WellFormed) : g.WellFormed :=
  hfg.preserves (fun _ _ hf h ↦ h.wellFormed hf) hf

theorem reachable_wellFormed (hf : Reaches empty f) : f.WellFormed := hf.wellFormed wellFormed_empty

/-! ## Forests that are put together -/

/-- A view is added to another one, if that is possible. -/
def added (f : Forest W) (p c : View) : Forest W :=
  match f.addView p c with
  | .ok (.ok g) => g
  | _ => f

/-- Views get widgets of one kind. -/
def equipped (f : Forest W) (widget : W) (views : List View) : Forest W :=
  views.foldl (fun f v ↦ f.modify v fun node ↦ { node with widget := some widget }) f

theorem Reaches.added (hfg : Reaches f g) (p c : View) : Reaches f (g.added p c) := by
  unfold Forest.added
  split
  case h_1 h hadd => exact hfg.step (.addView hadd)
  case h_2 => exact hfg

theorem Reaches.equipped (hfg : Reaches f g) (widget : W) (views : List View) :
    Reaches f (g.equipped widget views) := by
  induction views generalizing g with
  | nil => exact hfg
  | cons v views ih => exact ih (hfg.step (.setWidget g v (some widget)))

/-- As many views as given, each on its own. -/
def scattered : Nat → Forest Unit
  | 0 => empty
  | count + 1 => ((scattered count).create .zero).2

theorem reaches_scattered (count : Nat) : Reaches empty (scattered count) := by
  induction count with
  | zero => exact .refl empty
  | succ count ih => exact ih.step (.create _ .zero)

/-- A view with three subviews, the second of which has two subviews itself, and a view on its own. -/
def branched : Forest Unit :=
  (((((scattered 7).added ⟨1⟩ ⟨2⟩).added ⟨1⟩ ⟨3⟩).added ⟨1⟩ ⟨4⟩).added ⟨3⟩ ⟨5⟩).added ⟨3⟩ ⟨6⟩

theorem reaches_branched : Reaches empty branched :=
  (((((reaches_scattered 7).added _ _).added _ _).added _ _).added _ _).added _ _

end Forest

end RetainedUi
