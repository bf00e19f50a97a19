import RetainedUi.Paint.Draw
import RetainedUi.Proofs.Forest.Answers
import RetainedUi.Proofs.Forest.Notes
import RetainedUi.Proofs.Forest.Preorder
import RetainedUi.Proofs.Paint.SavedPens

/-!
# The walk of a drawing

A view draws itself first, and then its subviews are drawn on top of it, one after the other. What a drawing does to
the painter is up to its widget. But before a subview is drawn the origin is saved, and afterwards all that was saved
since is undone, so every subview starts from the origin that the view itself has left. That is true as long as no
drawing takes a saved pen off the stack that it has not put there.

To speak of the drawings that are run, each of them leaves a note of its view, of the origin that it found and of the
one that it left. The notes are kept beside the state that widgets share, where nothing looks at them.
-/

namespace RetainedUi

/-! ## Notes of drawings -/

/-- A view that a walk comes to: the origin that it is drawn with, and the one that its own drawing leaves. -/
structure Visit where
  view : View
  arrival : Vec
  departure : Vec

variable {W A L α : Type}

namespace Canvas

/-- A canvas without notes, or without another log. -/
def plain (s : Canvas (A × L)) : Canvas A := { s with ambient := s.ambient.plain }

/-- A canvas with notes. -/
def withVisits (s : Canvas A) (visits : List Visit) : Canvas (A × List Visit) :=
  { s with ambient := { s.ambient with shared := (s.ambient.shared, visits) } }

end Canvas

namespace Studio

def visits (s : Studio W (A × List Visit)) : List Visit := s.ambient.shared.2

/-- A studio without notes, or without another log. -/
def plain (s : Studio W (A × L)) : Studio W A := { s with ambient := s.ambient.plain }

/-- A studio with notes. -/
def withVisits (s : Studio W A) (visits : List Visit) : Studio W (A × List Visit) :=
  { s with ambient := { s.ambient with shared := (s.ambient.shared, visits) } }

end Studio

/-- A drawing that leaves a note, also if it halts. -/
def leavingVisit (draw : View → Rect → Pass (Canvas A) α) (v : View) (frame : Rect) :
    Pass (Canvas (A × List Visit)) α := fun s ↦
  let noted (t : Canvas A) : Canvas (A × List Visit) :=
    t.withVisits (s.ambient.shared.2 ++ [⟨v, s.painter.pen.origin, t.painter.pen.origin⟩])
  match draw v frame s.plain with
  | .ok answer t => .ok answer (noted t)
  | .error halt t => .error halt (noted t)

namespace DrawingConduct

/-- The same widgets, whose drawings leave notes. -/
def recorded (conduct : DrawingConduct W A) : DrawingConduct W (A × List Visit) :=
  fun widget ↦ (conduct widget).map leavingVisit

/-- Widgets that draw as others do, apart from notes that their drawings may leave. -/
def Echoes (noting : DrawingConduct W (A × L)) (conduct : DrawingConduct W A) : Prop :=
  ∀ widget, Option.Rel (fun draw draw' ↦ ∀ v frame, Pass.Forgets Canvas.plain (draw v frame) (draw' v frame))
    (noting widget) (conduct widget)

theorem recorded_echoes (conduct : DrawingConduct W A) : conduct.recorded.Echoes conduct := by
  intro widget
  unfold recorded
  cases conduct widget with
  | none => exact .none
  | some draw =>
    refine .some fun v frame s ↦ ?_
    unfold leavingVisit
    cases draw v frame s.plain <;> rfl

/-- Drawings that come to their end. -/
def Returning (conduct : DrawingConduct W A) : Prop :=
  ∀ widget draw, conduct widget = some draw → ∀ v frame s, ∃ answer t, draw v frame s = .ok answer t

/-- Drawings that take no saved pen off the stack that they have not put there. -/
def Tidy (conduct : DrawingConduct W A) : Prop :=
  ∀ widget draw, conduct widget = some draw → ∀ v frame s answer t, draw v frame s = .ok answer t →
    s.painter.saved <:+ t.painter.saved

end DrawingConduct

/-- What drawing does not touch of a node: its links and its frame. -/
def Node.setting (node : Node W) : (Nat × Option View × List View) × Rect := (node.links, node.frame)

namespace Studio

/-! ## Dropping the notes -/

theorem forgets_onGrove {pass : Pass (Grove W (A × L)) α} {pass' : Pass (Grove W A) α}
    (h : Pass.Forgets Grove.plain pass pass') : Pass.Forgets plain (onGrove pass) (onGrove pass') := by
  intro s
  have hs : _ = pass' ⟨s.forest, s.ambient.plain⟩ := h ⟨s.forest, s.ambient⟩
  unfold onGrove
  dsimp only [plain]
  rw [← hs]
  cases pass ⟨s.forest, s.ambient⟩ <;> rfl

theorem forgets_change (step : Forest W → Except Halt (Forest W)) :
    Pass.Forgets plain (change step : Pass (Studio W (A × L)) Unit) (change step) :=
  forgets_onGrove (Grove.forgets_change step)

theorem forgets_read (v : View) : Pass.Forgets plain (read v : Pass (Studio W (A × L)) (Node W)) (read v) :=
  forgets_onGrove (Grove.forgets_ask _)

theorem forgets_onCanvas {pass : Pass (Canvas (A × L)) α} {pass' : Pass (Canvas A) α}
    (h : Pass.Forgets Canvas.plain pass pass') : Pass.Forgets (plain (W := W)) (onCanvas pass) (onCanvas pass') := by
  intro s
  have hs : _ = pass' ⟨s.painter, s.ambient.plain⟩ := h ⟨s.painter, s.ambient⟩
  unfold onCanvas
  dsimp only [plain]
  rw [← hs]
  cases pass ⟨s.painter, s.ambient⟩ <;> rfl

section

variable {noting : DrawingConduct W (A × L)} {conduct : DrawingConduct W A} (h : noting.Echoes conduct)
include h

theorem forgets_drawSelf (v : View) : Pass.Forgets plain (drawSelf noting v) (drawSelf conduct v) := by
  unfold drawSelf
  refine Pass.forgets_bind (forgets_change _) fun _ ↦ Pass.forgets_bind (forgets_read v) fun node ↦ ?_
  cases node.widget with
  | none => exact Pass.forgets_pure _
  | some widget =>
    have hback (answer : W × Bool) : Pass.Forgets plain (do
        change (A := A × L) fun f ↦ f.update v fun node ↦ { node with widget := some answer.1 }
        return answer.2) (do
        change fun f ↦ f.update v fun node ↦ { node with widget := some answer.1 }
        return answer.2) :=
      Pass.forgets_bind (forgets_change _) fun _ ↦ Pass.forgets_pure _
    refine Pass.forgets_bind (forgets_change _) fun _ ↦ ?_
    have hwidget := h widget
    generalize noting widget = drawing, conduct widget = drawing' at hwidget
    cases hwidget with
    | none => exact Pass.forgets_bind (Pass.forgets_pure _) hback
    | some hdraw => exact Pass.forgets_bind (forgets_onCanvas (hdraw v _)) hback

omit h in
theorem forgets_shifted {draw : View → Pass (Studio W (A × L)) Unit} {draw' : View → Pass (Studio W A) Unit}
    (hdraw : ∀ sub, Pass.Forgets plain (draw sub) (draw' sub)) (sub : View) :
    Pass.Forgets plain (shifted draw sub) (shifted draw' sub) :=
  Pass.forgets_bind (forgets_read sub) fun _ ↦ Pass.forgets_bind_get fun _ ↦
    Pass.forgets_bind (Pass.forgets_modify fun _ ↦ rfl) fun _ ↦ Pass.forgets_bind (hdraw sub) fun _ ↦
      Pass.forgets_modify fun _ ↦ rfl

/-- Nothing looks at the notes. -/
theorem forgets_drawTree (depth : Nat) (v : View) :
    Pass.Forgets plain (drawTree noting depth v) (drawTree conduct depth v) := by
  induction depth generalizing v with
  | zero => exact Pass.forgets_throw _
  | succ depth ih =>
    unfold drawTree
    refine Pass.forgets_bind (forgets_drawSelf h v) fun again ↦ Pass.forgets_bind (forgets_read v) fun node ↦
      Pass.forgets_bind (Pass.forgets_forM (forgets_shifted ih) node.subviews) fun _ ↦ ?_
    cases again with
    | false => exact Pass.forgets_pure _
    | true => exact forgets_change _

end

/-! ## Drawing one view -/

/-- Whether a view has a widget that draws. -/
def hasDrawing (conduct : DrawingConduct W A) (f : Forest W) (v : View) : Bool :=
  (f.widget? v).any fun widget ↦ (conduct widget).isSome

section

variable {s : Studio W A} {v : View} {node : Node W}

theorem change_of_ok {step : Forest W → Except Halt (Forest W)} {f : Forest W} (h : step s.forest = .ok f) :
    change step s = .ok () { s with forest := f } := by
  unfold change onGrove Grove.change
  dsimp only
  rw [h]

theorem read_of_node? (hnode : s.forest.node? v = some node) : read v s = .ok node s := by
  have hask : Grove.ask (fun f ↦ f.read v) ⟨s.forest, s.ambient⟩ = .ok node ⟨s.forest, s.ambient⟩ :=
    Grove.ask_eq_ok.mpr ⟨Forest.read_eq_ok.mpr hnode, rfl⟩
  unfold read onGrove
  dsimp only
  rw [hask]

theorem onCanvas_of_ok {pass : Pass (Canvas A) α} {answer : α} {canvas : Canvas A}
    (h : pass ⟨s.painter, s.ambient⟩ = .ok answer canvas) :
    onCanvas pass s = .ok answer ⟨s.forest, canvas.painter, canvas.ambient⟩ := by
  unfold onCanvas
  dsimp only
  rw [h]

/-- The forest while a drawing is run: its view is clean, and its widget is lent to the drawing. -/
def lent (f : Forest W) (v : View) : Forest W :=
  (f.modify v Node.withoutRegion).modify v fun node ↦ { node with widget := none }

/-- Drawing a live view on its own. -/
theorem drawSelf_eq {conduct : DrawingConduct W A} (hnode : s.forest.node? v = some node) : drawSelf conduct v s =
    match node.widget with
    | none => .ok false { s with forest := s.forest.modify v Node.withoutRegion }
    | some widget =>
      ((match conduct widget with
        | some draw => onCanvas (draw v node.frame)
        | none => pure (widget, false)) >>= fun answer ↦ do
          change fun f ↦ f.update v fun node ↦ { node with widget := some answer.1 }
          return answer.2) { s with forest := lent s.forest v } := by
  have hlive : s.forest.contains v = true := Forest.contains_iff.mpr ⟨node, hnode⟩
  have hclean : change (fun f ↦ f.update v Node.withoutRegion) s =
      .ok () { s with forest := s.forest.modify v Node.withoutRegion } :=
    change_of_ok (Forest.update_eq_ok.mpr ⟨hlive, rfl⟩)
  have hread : read v { s with forest := s.forest.modify v Node.withoutRegion } =
      .ok node.withoutRegion { s with forest := s.forest.modify v Node.withoutRegion } :=
    read_of_node? (Forest.node?_modify_self hnode _)
  unfold drawSelf
  refine (Pass.bind_of_ok hclean).trans ((Pass.bind_of_ok hread).trans ?_)
  dsimp only [Node.withoutRegion]
  cases node.widget with
  | none => rfl
  | some widget =>
    have hlend : change (fun f ↦ f.update v fun node ↦ { node with widget := none })
        { s with forest := s.forest.modify v Node.withoutRegion } = .ok () { s with forest := lent s.forest v } :=
      change_of_ok (Forest.update_eq_ok.mpr ⟨by simpa using hlive, rfl⟩)
    refine (Pass.bind_of_ok hlend).trans ?_
    dsimp only
    cases conduct widget <;> rfl

end

/-- A view was drawn on its own. It has left a note if it has a drawing, and without one it has left the painter
alone. -/
structure DrawnSelf (conduct : DrawingConduct W A) (v : View) (s t : Studio W (A × List Visit)) : Prop where
  setting : Forest.Alike Node.setting s.forest t.forest
  widgets : ∀ w, w ≠ v → t.forest.widget? w = s.forest.widget? w
  notes : t.visits = s.visits ++ ([⟨v, s.painter.pen.origin, t.painter.pen.origin⟩] : List Visit).filter
    (hasDrawing conduct s.forest ·.view)
  idle : hasDrawing conduct s.forest v = false → t.painter = s.painter
  saved : conduct.Tidy → s.painter.saved <:+ t.painter.saved

theorem widget?_lent {f : Forest W} {v w : View} (hw : w ≠ v) : (lent f v).widget? w = f.widget? w :=
  (Forest.widget?_modify_of_ne hw _ _).trans (Forest.widget?_modify_of_ne hw _ _)

theorem setting_lent (f : Forest W) (v : View) : Forest.Alike Node.setting f (lent f v) :=
  (Forest.Alike.modify (fun _ ↦ by rfl) f v).trans (Forest.Alike.modify (fun _ ↦ by rfl) _ v)

/-- The widget goes back to its view when its drawing is done. -/
theorem putBack_of_live {s : Studio W A} {v : View} (hv : s.forest.contains v = true) (answer : W × Bool) :
    (do
      change fun f ↦ f.update v fun node ↦ { node with widget := some answer.1 }
      return answer.2 : Pass (Studio W A) Bool) s =
      .ok answer.2 { s with forest := s.forest.modify v fun node ↦ { node with widget := some answer.1 } } :=
  Pass.bind_of_ok (change_of_ok (Forest.update_eq_ok.mpr ⟨hv, rfl⟩))

section

variable {conduct : DrawingConduct W A} (hconduct : conduct.Returning) {s : Studio W (A × List Visit)} {v : View}
include hconduct

theorem exists_drawSelf (hv : s.forest.contains v = true) :
    ∃ again t, drawSelf conduct.recorded v s = .ok again t ∧ DrawnSelf conduct v s t := by
  obtain ⟨node, hnode⟩ := Forest.contains_iff.mp hv
  have hwidget : s.forest.widget? v = node.widget := Forest.widget?_of_node? hnode
  have hlent : (lent s.forest v).contains v = true := (setting_lent s.forest v).contains v ▸ hv
  have hback (answer : W × Bool) : Forest.Alike Node.setting s.forest
      ((lent s.forest v).modify v fun node ↦ { node with widget := some answer.1 }) :=
    (setting_lent s.forest v).trans (.modify (fun _ ↦ by rfl) _ v)
  rw [drawSelf_eq hnode]
  cases hhas : node.widget with
  | none =>
    have hnone : hasDrawing conduct s.forest v = false := by rw [hasDrawing, hwidget, hhas]; rfl
    exact ⟨false, _, rfl, .modify (fun _ ↦ by rfl) _ v, fun w hw ↦ Forest.widget?_modify_of_ne hw _ _,
      by simp [hnone]; rfl, fun _ ↦ rfl, fun _ ↦ List.suffix_rfl⟩
  | some widget =>
    dsimp only
    cases hdraw : conduct widget with
    | none =>
      have hnone : hasDrawing conduct s.forest v = false := by simp [hasDrawing, hwidget, hhas, hdraw]
      have hrecorded : conduct.recorded widget = none := congrArg (Option.map _) hdraw
      rw [hrecorded]
      exact ⟨false, _, (Pass.bind_of_ok rfl).trans (putBack_of_live hlent (widget, false)), hback (widget, false),
        fun w hw ↦ (Forest.widget?_modify_of_ne hw _ _).trans (widget?_lent hw), by simp [hnone]; rfl, fun _ ↦ rfl,
        fun _ ↦ List.suffix_rfl⟩
    | some draw =>
      have hsome : hasDrawing conduct s.forest v = true := by simp [hasDrawing, hwidget, hhas, hdraw]
      have hrecorded : conduct.recorded widget = some (leavingVisit draw) := congrArg (Option.map _) hdraw
      obtain ⟨answer, canvas, hrun⟩ := hconduct widget draw hdraw v node.frame ⟨s.painter, s.ambient.plain⟩
      have hnoted : leavingVisit draw v node.frame ⟨s.painter, s.ambient⟩ = .ok answer (canvas.withVisits
          (s.visits ++ [⟨v, s.painter.pen.origin, canvas.painter.pen.origin⟩])) := by
        unfold leavingVisit
        dsimp only [Canvas.plain]
        rw [hrun]
        rfl
      rw [hrecorded]
      exact ⟨answer.2, _, (Pass.bind_of_ok (onCanvas_of_ok (s := { s with forest := lent s.forest v }) hnoted)).trans
        (putBack_of_live hlent answer), hback answer,
        fun w hw ↦ (Forest.widget?_modify_of_ne hw _ _).trans (widget?_lent hw),
        by simp [hsome]; rfl, fun hother ↦ by simp [hsome] at hother,
        fun htidy ↦ htidy widget draw hdraw v node.frame _ answer canvas hrun⟩

end

/-! ## Drawing a family -/

/-- A walk over some views has come to each of them once, and in their order. Views without a drawing leave the origin
as they find it. With tidy drawings, a subview starts from the origin that its superview has left. -/
structure Walked (conduct : DrawingConduct W A) (part : List View) (f g : Forest W) (visits : List Visit) : Prop where
  setting : Forest.Alike Node.setting f g
  widgets : ∀ w ∉ part, g.widget? w = f.widget? w
  order : visits.map Visit.view = part
  idle : ∀ p ∈ visits, hasDrawing conduct f p.view = false → p.departure = p.arrival
  below : conduct.Tidy → ∀ p ∈ visits, ∀ q ∈ visits, q.view ∈ f.subviewsOf p.view →
    ∀ node, f.node? q.view = some node → q.arrival = p.departure + node.frame.origin

section

variable {conduct : DrawingConduct W A} {f g h : Forest W} {part part' : List View} {visits visits' : List Visit}

theorem hasDrawing_congr {v : View} (hwidget : g.widget? v = f.widget? v) :
    hasDrawing conduct g v = hasDrawing conduct f v := by
  rw [hasDrawing, hasDrawing, hwidget]

/-- All that is below the views of a list is in the list. -/
def Closed (f : Forest W) (part : List View) : Prop := ∀ w ∈ part, ∀ sub ∈ f.subviewsOf w, sub ∈ part

section

variable {depth : Nat} (hf : f.WellFormed)
include hf

theorem closed_preorder {v : View} (hfits : f.Fits depth v) : Closed f (f.preorder depth v) :=
  fun _ hw _ hsub ↦ hf.mem_preorder_of_mem_subviewsOf hfits hw hsub

theorem closed_flatMap {subs : List View} (hfits : ∀ sub ∈ subs, f.Fits depth sub) :
    Closed f (subs.flatMap (f.preorder depth)) := by
  intro w hw below hbelow
  obtain ⟨sub, hsub, hw⟩ := List.mem_flatMap.mp hw
  exact List.mem_flatMap.mpr ⟨sub, hsub, closed_preorder hf (hfits sub hsub) w hw below hbelow⟩

end

theorem Walked.mem_part (hwalked : Walked conduct part f g visits) {p : Visit} (hp : p ∈ visits) : p.view ∈ part :=
  hwalked.order ▸ List.mem_map_of_mem hp

theorem Walked.nil (f : Forest W) : Walked conduct [] f f [] where
  setting := .refl _ f
  widgets _ _ := rfl
  order := rfl
  idle _ hp := by cases hp
  below _ _ hp := by cases hp

/-- What a walk notes in a forest it also notes in one that has the same views, with the same widgets in those that
it comes to. -/
theorem Walked.of_setting (hwalked : Walked conduct part g h visits) (hsetting : Forest.Alike Node.setting f g)
    (hwidgets : ∀ w ∈ part, g.widget? w = f.widget? w) :
    (∀ p ∈ visits, hasDrawing conduct g p.view = hasDrawing conduct f p.view) ∧
      (conduct.Tidy → ∀ p ∈ visits, ∀ q ∈ visits, q.view ∈ f.subviewsOf p.view →
        ∀ node, f.node? q.view = some node → q.arrival = p.departure + node.frame.origin) := by
  refine ⟨fun p hp ↦ hasDrawing_congr (hwidgets p.view (hwalked.mem_part hp)),
    fun htidy p hp q hq hsub node hnode ↦ ?_⟩
  obtain ⟨other, hother, hsame⟩ := hsetting.exists_node? hnode
  have hlinks : Forest.Alike Node.links f g := hsetting.map Prod.fst
  have hframe : other.frame = node.frame := congrArg Prod.snd hsame
  rw [← hframe]
  exact hwalked.below htidy p hp q hq (hlinks.subviewsOf p.view ▸ hsub) other hother

/-- One walk after another, over other views. -/
theorem Walked.append (hfirst : Walked conduct part f g visits) (hlast : Walked conduct part' g h visits')
    (hdisjoint : part.Disjoint part') (hclosed : Closed f part) (hclosed' : Closed f part') :
    Walked conduct (part ++ part') f h (visits ++ visits') ∧
      visits'.filter (hasDrawing conduct g ·.view) = visits'.filter (hasDrawing conduct f ·.view) := by
  have hothers : ∀ w ∈ part', g.widget? w = f.widget? w := fun w hw ↦
    hfirst.widgets w fun hpart ↦ hdisjoint hpart hw
  obtain ⟨hsame, hbelow⟩ := hlast.of_setting hfirst.setting hothers
  refine ⟨⟨hfirst.setting.trans hlast.setting, fun w hw ↦ ?_, ?_, fun p hp hnone ↦ ?_,
    fun htidy p hp q hq hsub ↦ ?_⟩, List.filter_congr hsame⟩
  · rw [List.mem_append, not_or] at hw
    exact (hlast.widgets w hw.2).trans (hfirst.widgets w hw.1)
  · rw [List.map_append, hfirst.order, hlast.order]
  · rcases List.mem_append.mp hp with hp | hp
    · exact hfirst.idle p hp hnone
    · exact hlast.idle p hp ((hsame p hp).trans hnone)
  · -- A view and its subview are visited by the same walk.
    rcases List.mem_append.mp hp with hp | hp <;> rcases List.mem_append.mp hq with hq | hq
    · exact hfirst.below htidy p hp q hq hsub
    · exact (hdisjoint (hclosed _ (hfirst.mem_part hp) _ hsub) (hlast.mem_part hq)).elim
    · exact (hdisjoint (hfirst.mem_part hq) (hclosed' _ (hlast.mem_part hp) _ hsub)).elim
    · exact hbelow htidy p hp q hq hsub

/-- Views that are drawn one after the other start from the same origin, each moved by the corner of its frame. A walk
comes to a view only below itself. -/
theorem arrivals_append {depth : Nat} {sub : View} {subs : List View} {node : Node W} {origin : Vec}
    (hf : f.WellFormed) (hsub : f.Fits depth sub) (hfits : ∀ other ∈ subs, f.Fits depth other)
    (hdisjoint : (f.preorder depth sub).Disjoint (subs.flatMap (f.preorder depth)))
    (hfirst : Walked conduct (f.preorder depth sub) f g visits)
    (hlast : Walked conduct (subs.flatMap (f.preorder depth)) g h visits') (hnode : f.node? sub = some node)
    (harrival : ∀ p ∈ visits, p.view = sub → p.arrival = origin + node.frame.origin)
    (harrivals : ∀ p ∈ visits', p.view ∈ subs → ∀ node, g.node? p.view = some node →
      p.arrival = origin + node.frame.origin) :
    ∀ p ∈ visits ++ visits', p.view ∈ sub :: subs → ∀ node, f.node? p.view = some node →
      p.arrival = origin + node.frame.origin := by
  intro p hp hview other hother
  have hself {view : View} (hfit : f.Fits depth view) : view ∈ f.preorder depth view :=
    (hf.mem_preorder_iff hfit).mpr .refl
  rcases List.mem_append.mp hp with hp | hp <;> rcases List.mem_cons.mp hview with hview | hview
  · obtain rfl : node = other := Option.some.inj (hnode.symm.trans (hview ▸ hother))
    exact harrival p hp hview
  · exact (hdisjoint (hfirst.mem_part hp) (List.mem_flatMap.mpr ⟨p.view, hview, hself (hfits _ hview)⟩)).elim
  · exact (hdisjoint (hself hsub) (hview ▸ hlast.mem_part hp)).elim
  · obtain ⟨found, hfound, hframe⟩ := hfirst.setting.exists_node? hother
    rw [← show found.frame = other.frame from congrArg Prod.snd hframe]
    exact harrivals p hp hview found hfound

/-- A view comes first, and then what is below it. -/
theorem Walked.cons {s self : Studio W (A × List Visit)} {v : View} (hself : DrawnSelf conduct v s self)
    (hrest : Walked conduct part self.forest h visits) (hfresh : v ∉ part) (hclosed : Closed s.forest part)
    (hsubs : v ∉ s.forest.subviewsOf v)
    (harrivals : conduct.Tidy → ∀ p ∈ visits, p.view ∈ s.forest.subviewsOf v → ∀ node,
      s.forest.node? p.view = some node → p.arrival = self.painter.pen.origin + node.frame.origin) :
    Walked conduct (v :: part) s.forest h (⟨v, s.painter.pen.origin, self.painter.pen.origin⟩ :: visits) ∧
      visits.filter (hasDrawing conduct self.forest ·.view) = visits.filter (hasDrawing conduct s.forest ·.view) := by
  have hothers : ∀ w ∈ part, self.forest.widget? w = s.forest.widget? w := fun w hw ↦
    hself.widgets w fun heq ↦ hfresh (heq ▸ hw)
  obtain ⟨hsame, hbelow⟩ := hrest.of_setting hself.setting hothers
  refine ⟨⟨hself.setting.trans hrest.setting, fun w hw ↦ ?_, congrArg (v :: ·) hrest.order, fun p hp hnone ↦ ?_,
    fun htidy p hp q hq hsub ↦ ?_⟩, List.filter_congr hsame⟩
  · rw [List.mem_cons, not_or] at hw
    exact (hrest.widgets w hw.2).trans (hself.widgets w hw.1)
  · rcases List.mem_cons.mp hp with rfl | hp
    · exact congrArg (·.pen.origin) (hself.idle hnone)
    · exact hrest.idle p hp ((hsame p hp).trans hnone)
  · rcases List.mem_cons.mp hp with rfl | hp <;> rcases List.mem_cons.mp hq with rfl | hq
    · exact (hsubs hsub).elim
    · exact harrivals htidy q hq hsub
    · exact (hfresh (hclosed _ (hrest.mem_part hp) _ hsub)).elim
    · exact hbelow htidy p hp q hq hsub

/-- What has to be painted again does not matter. -/
theorem Walked.painted (hwalked : Walked conduct part f g visits) (halike : Forest.Alike Node.withoutRegion g h) :
    Walked conduct part f h visits :=
  { hwalked with
    setting := hwalked.setting.trans (halike.map Node.setting)
    widgets := fun w hw ↦ ((halike.map Node.widget).bind_node? id w).symm.trans (hwalked.widgets w hw) }

end

/-- A computation that comes to its end and is a walk over some views, each of which leaves a note if it has a
drawing. -/
def Walks (conduct : DrawingConduct W A) (part : List View) (s t : Studio W (A × List Visit)) (visits : List Visit) :
    Prop :=
  t.visits = s.visits ++ visits.filter (hasDrawing conduct s.forest ·.view) ∧
    Walked conduct part s.forest t.forest visits

/-- Drawing a view with all that is below it comes to its end and is a walk over these views, which begins with the
origin of the studio. What tidy drawings save is on top of what was saved before. -/
def WalksTree (conduct : DrawingConduct W A) (depth : Nat) (v : View) (s : Studio W (A × List Visit)) : Prop :=
  ∃ t visits, drawTree conduct.recorded depth v s = .ok () t ∧
    Walks conduct (s.forest.preorder depth v) s t visits ∧
    (conduct.Tidy → (∀ p ∈ visits, p.view = v → p.arrival = s.painter.pen.origin) ∧
      s.painter.saved <:+ t.painter.saved)

/-- The studio in which a subview is drawn. -/
def entered (s : Studio W A) (offset : Vec) : Studio W A :=
  { s with painter := (s.painter.save .originOnly).setOrigin (s.painter.pen.origin + offset) }

/-- What is left behind a subview, whose saved pens are undone. -/
def unwound (s : Studio W A) (depth : Nat) : Studio W A := { s with painter := s.painter.unwind depth }

theorem shifted_of_ok {draw : View → Pass (Studio W A) Unit} {s t : Studio W A} {sub : View} {node : Node W}
    (hnode : s.forest.node? sub = some node) (hdraw : draw sub (s.entered node.frame.origin) = .ok () t) :
    shifted draw sub s = .ok () (t.unwound s.painter.saved.length) :=
  (Pass.bind_of_ok (read_of_node? hnode)).trans (Pass.bind_of_ok hdraw)

section

variable {conduct : DrawingConduct W A} {s : Studio W (A × List Visit)} {v : View}

/-- Subviews are drawn one after the other, and each of them leaves the saved pens and the origin as they were. -/
theorem walks_forM {depth : Nat} (ih : ∀ {v : View} {s : Studio W (A × List Visit)}, s.forest.WellFormed →
      s.forest.Fits depth v → WalksTree conduct depth v s)
    (hf : s.forest.WellFormed) (subs : List View) (hfits : ∀ sub ∈ subs, s.forest.Fits depth sub)
    (hnodup : (subs.flatMap (s.forest.preorder depth)).Nodup) :
    ∃ t visits, subs.forM (shifted (drawTree conduct.recorded depth)) s = .ok ⟨⟩ t ∧
      Walks conduct (subs.flatMap (s.forest.preorder depth)) s t visits ∧
      (conduct.Tidy → (∀ p ∈ visits, p.view ∈ subs → ∀ node, s.forest.node? p.view = some node →
          p.arrival = s.painter.pen.origin + node.frame.origin) ∧
        t.painter.saved = s.painter.saved ∧ t.painter.pen.origin = s.painter.pen.origin) := by
  induction subs generalizing s with
  | nil => exact ⟨s, [], rfl, ⟨(List.append_nil _).symm, .nil _⟩, fun _ ↦ ⟨by simp, rfl, rfl⟩⟩
  | cons sub subs ihs =>
    obtain ⟨hsub, hfits⟩ := List.forall_mem_cons.mp hfits
    rw [List.flatMap_cons] at hnodup ⊢
    obtain ⟨-, hnodup, hdisjoint⟩ := List.nodup_append'.mp hnodup
    obtain ⟨node, hnode⟩ := Forest.contains_iff.mp hsub.contains
    obtain ⟨laid, visits, hdraw, ⟨hnotes, hwalked⟩, htidied⟩ := ih (s := s.entered node.frame.origin) hf hsub
    have hlinks : Forest.Alike Node.links s.forest laid.forest := hwalked.setting.map Prod.fst
    have hsame : laid.forest.preorder depth = s.forest.preorder depth := funext (hlinks.preorder_eq depth)
    obtain ⟨t, visits', hrest, ⟨hnotes', hwalked'⟩, htidied'⟩ := ihs (s := laid.unwound s.painter.saved.length)
      (hlinks.wellFormed hf) (fun other hother ↦ hlinks.fits.mpr (hfits other hother)) (hsame ▸ hnodup)
    have hpart : Walked conduct (subs.flatMap (s.forest.preorder depth)) laid.forest t.forest visits' :=
      hsame ▸ hwalked'
    obtain ⟨hboth, hfilter⟩ := hwalked.append hpart hdisjoint (closed_preorder hf hsub) (closed_flatMap hf hfits)
    refine ⟨t, visits ++ visits', (Pass.bind_of_ok (shifted_of_ok hnode hdraw)).trans hrest, ⟨?_, hboth⟩,
      fun htidy ↦ ?_⟩
    · refine hnotes'.trans ?_
      change laid.visits ++ visits'.filter (hasDrawing conduct laid.forest ·.view) = _
      rw [hfilter, hnotes, List.filter_append, List.append_assoc]
      rfl
    · obtain ⟨harrival, hsuffix⟩ := htidied htidy
      obtain ⟨hsaved, hagree⟩ := Painter.unwind_of_suffix hsuffix
      have horigin := hagree.origin rfl
      obtain ⟨harrivals, hsaved', horigin'⟩ := htidied' htidy
      have hlater (p : Visit) (hp : p ∈ visits') (hview : p.view ∈ subs) (found : Node W)
          (hfound : laid.forest.node? p.view = some found) : p.arrival = s.painter.pen.origin + found.frame.origin :=
        (harrivals p hp hview found hfound).trans (congrArg (· + found.frame.origin) horigin)
      exact ⟨arrivals_append hf hsub hfits hdisjoint hwalked hpart hnode harrival hlater, hsaved'.trans hsaved,
        horigin'.trans horigin⟩

/-- A drawing that is to be repeated has its view painted again, and that is all. -/
theorem exists_repainted (hf : s.forest.WellFormed) (hv : s.forest.contains v = true) (again : Bool) :
    ∃ t : Studio W (A × List Visit),
      (if again then change fun f ↦ f.invalidate v none else pure () : Pass (Studio W (A × List Visit)) Unit) s =
        .ok () t ∧ t.painter = s.painter ∧ t.visits = s.visits ∧ Forest.Alike Node.withoutRegion s.forest t.forest := by
  cases again with
  | false => exact ⟨s, rfl, rfl, rfl, .refl _ _⟩
  | true =>
    obtain ⟨forest, hforest⟩ := hf.exists_invalidate hv none
    exact ⟨{ s with forest }, change_of_ok hforest, rfl, rfl, Forest.alike_of_invalidate hforest⟩

/-- Every live view can be drawn, with all that is below it. -/
theorem exists_drawTree (hconduct : conduct.Returning) {depth : Nat} (hf : s.forest.WellFormed)
    (hfits : s.forest.Fits depth v) : WalksTree conduct depth v s := by
  induction depth generalizing v s with
  | zero => exact hfits.elim
  | succ depth ih =>
    obtain ⟨again, self, hself, hdrawn⟩ := exists_drawSelf hconduct hfits.1
    have hlinks : Forest.Alike Node.links s.forest self.forest := hdrawn.setting.map Prod.fst
    have hwell := hlinks.wellFormed hf
    have hlive : self.forest.contains v = true := hlinks.contains v ▸ hfits.1
    obtain ⟨node, hnode⟩ := Forest.contains_iff.mp hlive
    have hsubs : node.subviews = s.forest.subviewsOf v := by
      rw [hlinks.subviewsOf v, Forest.subviewsOf_of_node? hnode]
    have hpreorder : self.forest.preorder depth = s.forest.preorder depth := funext (hlinks.preorder_eq depth)
    obtain ⟨hfresh, hnodup⟩ := List.nodup_cons.mp (hf.nodup_preorder hfits)
    obtain ⟨mid, visits, hall, ⟨hnotes, hwalked⟩, htidied⟩ := walks_forM (s := self) ih hwell
      (s.forest.subviewsOf v) (fun sub hsub ↦ hlinks.fits.mpr (hfits.2 sub hsub)) (hpreorder ▸ hnodup)
    rw [hpreorder] at hwalked
    have hmid : Forest.Alike Node.links self.forest mid.forest := hwalked.setting.map Prod.fst
    obtain ⟨last, hlast, hpainter, hvisits, hpainted⟩ :=
      exists_repainted (hmid.wellFormed hwell) (hmid.contains v ▸ hlive) again
    have hself' : v ∉ s.forest.subviewsOf v := fun hsub ↦
      hf.not_transGen_self v (.single ((hf.linked v v).mpr hsub))
    have harrivals (htidy : conduct.Tidy) (p : Visit) (hp : p ∈ visits) (hsub : p.view ∈ s.forest.subviewsOf v)
        (found : Node W) (hfound : s.forest.node? p.view = some found) :
        p.arrival = self.painter.pen.origin + found.frame.origin := by
      obtain ⟨other, hother, hsame⟩ := hdrawn.setting.exists_node? hfound
      rw [← show other.frame = found.frame from congrArg Prod.snd hsame]
      exact (htidied htidy).1 p hp hsub other hother
    obtain ⟨hboth, hfilter⟩ := hwalked.cons hdrawn hfresh (closed_flatMap hf hfits.2) hself' harrivals
    refine ⟨last, ⟨v, s.painter.pen.origin, self.painter.pen.origin⟩ :: visits, ?_, ⟨?_, hboth.painted hpainted⟩,
      fun htidy ↦ ⟨fun p hp hview ↦ ?_, ?_⟩⟩
    · unfold drawTree
      refine (Pass.bind_of_ok hself).trans ((Pass.bind_of_ok (read_of_node? hnode)).trans ?_)
      rw [hsubs]
      exact (Pass.bind_of_ok hall).trans hlast
    · rw [hvisits, hnotes, hfilter, hdrawn.notes, List.append_assoc, ← List.filter_append]
      rfl
    · rcases List.mem_cons.mp hp with rfl | hp
      · rfl
      · exact (hfresh (hview ▸ hwalked.mem_part hp)).elim
    · rw [hpainter, (htidied htidy).2.1]
      exact hdrawn.saved htidy

end

section

variable {conduct : DrawingConduct W A} (hconduct : conduct.Returning) {s : Studio W A} {v : View}
  (hf : s.forest.WellFormed) (hv : s.forest.contains v = true)
include hconduct hf hv

/-- The walk of a whole drawing, with notes and without. -/
theorem exists_draw : ∃ (t : Studio W A) (visits : List Visit), draw conduct v s = .ok () t ∧
    draw conduct.recorded v (s.withVisits []) =
      .ok () (t.withVisits (visits.filter (hasDrawing conduct s.forest ·.view))) ∧
    Walked conduct (s.forest.listing v) s.forest t.forest visits ∧
    (conduct.Tidy → (∀ p ∈ visits, p.view = v → p.arrival = s.painter.pen.origin) ∧
      s.painter.saved <:+ t.painter.saved) := by
  obtain ⟨t, visits, hrun, ⟨hnotes, hwalked⟩, htidied⟩ :=
    exists_drawTree hconduct (s := s.withVisits []) hf (hf.fits hv)
  have hplain : draw conduct v s = .ok () t.plain := (forgets_drawTree conduct.recorded_echoes _ v).eq_ok hrun
  have hvisits : t.visits = visits.filter (hasDrawing conduct s.forest ·.view) := hnotes
  exact ⟨t.plain, visits, hplain, hvisits ▸ hrun, hwalked, htidied⟩

/-- What is drawn below a view leaves the saved pens and the origin as they were. -/
theorem exists_drawSubviews (htidy : conduct.Tidy) : ∃ t, drawSubviews conduct v s = .ok () t ∧
    t.painter.saved = s.painter.saved ∧ t.painter.pen.origin = s.painter.pen.origin := by
  obtain ⟨node, hnode⟩ := Forest.contains_iff.mp hv
  have hfits := ((hf.fits hv).of_le (Nat.le_succ _)).1
  have hnodup := (List.nodup_cons.mp (hf.nodup_preorder hfits)).2
  obtain ⟨t, visits, hrun, -, htidied⟩ := walks_forM (s := s.withVisits [])
    (fun hwell hfits ↦ exists_drawTree hconduct hwell hfits) hf _ hfits.2 hnodup
  rw [Forest.subviewsOf_of_node? hnode] at hrun
  have hplain := (Pass.forgets_forM (forgets_shifted (forgets_drawTree conduct.recorded_echoes _))
    node.subviews).eq_ok hrun
  exact ⟨t.plain, (Pass.bind_of_ok (read_of_node? hnode)).trans hplain, (htidied htidy).2⟩

end

/-- Drawing a live view runs the drawing of every view at or below it that has one, each of them once, in the order of
a walk that visits a view before its subviews and goes through the subviews in their order. Whatever the drawings do to
the painter, a view below the first starts from the origin that the own drawing of its superview has left, moved by the
corner of its frame. What is drawn below a view leaves the saved pens and the origin as they were.

That takes drawings that come to their end, and that take no saved pen off the stack which they have not put there. -/
theorem draw_in_order {conduct : DrawingConduct W A} (hconduct : conduct.Returning) (htidy : conduct.Tidy)
    {s : Studio W A} {v : View} (hf : s.forest.WellFormed) (hv : s.forest.contains v = true) :
    (∃ (t : Studio W A) (visits : List Visit), draw conduct v s = .ok () t ∧
      draw conduct.recorded v (s.withVisits []) =
        .ok () (t.withVisits (visits.filter (hasDrawing conduct s.forest ·.view))) ∧
      visits.map Visit.view = s.forest.listing v ∧
      (visits.filter (hasDrawing conduct s.forest ·.view)).map Visit.view =
        (s.forest.listing v).filter (hasDrawing conduct s.forest) ∧
      (s.forest.listing v).Nodup ∧ (∀ w, w ∈ s.forest.listing v ↔ s.forest.InFamily v w) ∧
      (∀ p ∈ visits, p.view = v → p.arrival = s.painter.pen.origin) ∧
      (∀ p ∈ visits, hasDrawing conduct s.forest p.view = false → p.departure = p.arrival) ∧
      ∀ p ∈ visits, ∀ q ∈ visits, s.forest.superview? q.view = some p.view →
        ∀ node, s.forest.node? q.view = some node → q.arrival = p.departure + node.frame.origin) ∧
    ∃ t, drawSubviews conduct v s = .ok () t ∧
      t.painter.saved = s.painter.saved ∧ t.painter.pen.origin = s.painter.pen.origin := by
  refine ⟨?_, exists_drawSubviews hconduct hf hv htidy⟩
  obtain ⟨t, visits, hrun, hrecorded, hwalked, htidied⟩ := exists_draw hconduct hf hv
  refine ⟨t, visits, hrun, hrecorded, hwalked.order, ?_, hf.nodup_preorder (hf.fits hv), fun w ↦ hf.mem_listing_iff hv,
    (htidied htidy).1, hwalked.idle, fun p hp q hq hup ↦ hwalked.below htidy p hp q hq ((hf.linked _ _).mp hup)⟩
  rw [← hwalked.order, List.filter_map]
  rfl

/-- Every drawing saves the pen, moves the origin and leaves it at that. -/
def scrawling : DrawingConduct Unit Unit := fun _ ↦ some fun _ frame s ↦
  .ok ((), true) { s with painter := (s.painter.save .all).setOrigin (s.painter.pen.origin + frame.size) }

/-- The subview starts from the origin that its superview has left. -/
theorem draw_in_order_nested : ∃ (t u : Studio Unit Unit) (p q : Visit),
    draw scrawling ⟨1⟩ ⟨.nested, .standard, ⟨#[], ()⟩⟩ = .ok () t ∧
      draw scrawling.recorded ⟨1⟩ ⟨.nested, .standard, ⟨#[], ((), [])⟩⟩ = .ok () (t.withVisits [p, q]) ∧
      p.view = ⟨1⟩ ∧ p.arrival = .zero ∧ q.view = ⟨2⟩ ∧ q.arrival = p.departure + Rect.zero.origin ∧
      drawSubviews scrawling ⟨1⟩ ⟨.nested, .standard, ⟨#[], ()⟩⟩ = .ok () u ∧ u.painter.saved = [] ∧
      u.painter.pen.origin = .zero := by
  have hreturning : scrawling.Returning := by
    rintro widget draw hdraw v frame s
    cases hdraw
    exact ⟨_, _, rfl⟩
  have htidy : scrawling.Tidy := by
    rintro widget draw hdraw v frame s answer t hrun
    cases hdraw
    cases hrun
    exact List.suffix_cons _ _
  obtain ⟨⟨t, visits, hrun, hrecorded, horder, -, -, -, hfirst, -, hbelow⟩, u, hsubviews, hsaved, horigin⟩ :=
    draw_in_order hreturning htidy (s := ⟨.nested, .standard, ⟨#[], ()⟩⟩) (v := ⟨1⟩) Forest.wellFormed_nested rfl
  have hlisting : Forest.nested.listing ⟨1⟩ = [⟨1⟩, ⟨2⟩] := rfl
  rw [hlisting] at horder
  obtain ⟨p, rest, rfl, hp, hrest⟩ := List.map_eq_cons_iff.mp horder
  obtain ⟨q, last, rfl, hq, hlast⟩ := List.map_eq_cons_iff.mp hrest
  obtain rfl := List.map_eq_nil_iff.mp hlast
  have hdrawings : [p, q].filter (hasDrawing scrawling Forest.nested ·.view) = [p, q] := by
    have hboth : hasDrawing scrawling Forest.nested ⟨1⟩ = true ∧ hasDrawing scrawling Forest.nested ⟨2⟩ = true :=
      ⟨rfl, rfl⟩
    simp [hp, hq, hboth]
  obtain ⟨node, hnode, hframe⟩ : ∃ node, Forest.nested.node? ⟨2⟩ = some node ∧ node.frame = .zero := ⟨_, rfl, rfl⟩
  have hup : Forest.nested.superview? ⟨2⟩ = some ⟨1⟩ := rfl
  have hmoved := hbelow p (by simp) q (by simp) (by rw [hp, hq]; exact hup) node (by rw [hq]; exact hnode)
  rw [hframe] at hmoved
  dsimp only at hrecorded
  rw [hdrawings] at hrecorded
  exact ⟨t, u, p, q, hrun, hrecorded, hp, hfirst p (by simp) hp, hq, hmoved, hsubviews, hsaved, horigin⟩

end Studio

end RetainedUi
