import RetainedUi.Proofs.Forest.Climbing
import RetainedUi.Proofs.Paint.DrawWalk

/-!
# What is to be painted again after a drawing

A drawing makes each view clean before its widget draws, and goes on to the subviews. A view whose drawing has asked to
be repeated is to be painted again, but only when everything below it is drawn. By then all that is below has been made
clean already, and so has everything above up to the view that the drawing has begun with. So no request is wiped out by
the drawing that it comes from, and of what was pending before nothing is left.

To speak of the views that ask, each of them is put on a list behind its drawing. Nothing looks at the list.
-/

namespace RetainedUi

variable {W A L α : Type}

/-! ## Views that ask to be drawn again -/

namespace Canvas

/-- A canvas with a list of views that have asked. -/
def withAsked (s : Canvas A) (asked : List View) : Canvas (A × List View) :=
  { s with ambient := { s.ambient with shared := (s.ambient.shared, asked) } }

end Canvas

namespace Studio

def asked (s : Studio W (A × List View)) : List View := s.ambient.shared.2

/-- A studio with a list of views that have asked. -/
def withAsked (s : Studio W A) (asked : List View) : Studio W (A × List View) :=
  { s with ambient := { s.ambient with shared := (s.ambient.shared, asked) } }

end Studio

/-- A drawing that puts its view on the list if it asks to be repeated. -/
def leavingRequest (draw : View → Rect → Pass (Canvas A) (W × Bool)) (v : View) (frame : Rect) :
    Pass (Canvas (A × List View)) (W × Bool) := fun s ↦
  match draw v frame s.plain with
  | .ok answer t => .ok answer (t.withAsked (s.ambient.shared.2 ++ if answer.2 then [v] else []))
  | .error halt t => .error halt (t.withAsked s.ambient.shared.2)

namespace DrawingConduct

/-- The same widgets, whose views are put on a list if they ask to be drawn again. -/
def inquired (conduct : DrawingConduct W A) : DrawingConduct W (A × List View) :=
  fun widget ↦ (conduct widget).map leavingRequest

theorem inquired_echoes (conduct : DrawingConduct W A) : conduct.inquired.Echoes conduct := by
  intro widget
  unfold inquired
  cases conduct widget with
  | none => exact .none
  | some draw =>
    refine .some fun v frame s ↦ ?_
    unfold leavingRequest
    cases draw v frame s.plain <;> rfl

end DrawingConduct

namespace Forest

variable {f g h : Forest W} {v w : View}

/-! ## What a drawing leaves pending -/

/-- The view is in the family of one of the others. -/
def Within (f : Forest W) (tops : List View) (w : View) : Prop := ∃ top ∈ tops, f.InFamily top w

/-- The families of some views were drawn, and some of their views have asked to be drawn again. -/
structure Repainted (f : Forest W) (tops asked : List View) (g : Forest W) : Prop where
  setting : Alike Node.setting f g
  within : ∀ r ∈ asked, f.Within tops r
  pending : ∀ r ∈ asked, g.pending? r ≠ none
  /-- Nothing else is pending in the families, except above views that have asked. -/
  clean : ∀ w, f.Within tops w → g.pending? w ≠ none → ∃ r ∈ asked, f.InFamily w r
  outside : ∀ w, ¬ f.Within tops w → (g.node? w).map Node.withoutRegion = (f.node? w).map Node.withoutRegion
  elsewhere : ∀ w, ¬ f.Within tops w → (∀ top ∈ tops, ¬ f.InFamily w top) → g.node? w = f.node? w
  restful : asked = [] → ∀ w, ¬ f.Within tops w → g.node? w = f.node? w

theorem within_singleton {top : View} : f.Within [top] w ↔ f.InFamily top w := by simp [Within]

theorem within_cons {top : View} {tops : List View} :
    f.Within (top :: tops) w ↔ f.InFamily top w ∨ f.Within tops w := by
  simp [Within]

theorem Alike.within (h : Alike Node.links f g) (tops : List View) (w : View) :
    g.Within tops w ↔ f.Within tops w :=
  exists_congr fun top ↦ and_congr_right fun _ ↦ (h.inFamily top w).symm

theorem pending?_congr (h : g.node? w = f.node? w) : g.pending? w = f.pending? w := by
  rw [pending?, pending?, h]

namespace Repainted

variable {top : View} {tops asked asked' : List View}

theorem links (h : Repainted f tops asked g) : Alike Node.links f g := h.setting.map Prod.fst

theorem nil (f : Forest W) : Repainted f [] [] f where
  setting := .refl _ f
  within := by simp
  pending := by simp
  clean := by simp [Within]
  outside _ _ := rfl
  elsewhere _ _ _ := rfl
  restful _ _ _ := rfl

/-- One family is drawn after another one that is apart from it. -/
theorem cons (hfirst : Repainted f [top] asked g) (hrest : Repainted g tops asked' h)
    (hapart : ∀ w, f.InFamily top w → ¬ f.Within tops w) : Repainted f (top :: tops) (asked ++ asked') h := by
  have hwithin := hfirst.links.within tops
  -- What the first family has pending is not touched any more.
  have hkept (w : View) (hw : f.InFamily top w) : h.node? w = g.node? w := by
    refine hrest.elsewhere w (fun hin ↦ hapart w hw ((hwithin w).mp hin)) fun other hother habove ↦ ?_
    exact hapart other (hw.trans ((hfirst.links.inFamily w other).mpr habove)) ⟨other, hother, .refl⟩
  refine ⟨hfirst.setting.trans hrest.setting, fun r hr ↦ ?_, fun r hr ↦ ?_, fun w hw hpending ↦ ?_, fun w hw ↦ ?_,
    fun w hw habove ↦ ?_, fun hnone w hw ↦ ?_⟩
  · rw [within_cons]
    rcases List.mem_append.mp hr with hr | hr
    · exact .inl (within_singleton.mp (hfirst.within r hr))
    · exact .inr ((hwithin r).mp (hrest.within r hr))
  · rcases List.mem_append.mp hr with hr | hr
    · rw [pending?_congr (hkept r (within_singleton.mp (hfirst.within r hr)))]
      exact hfirst.pending r hr
    · exact hrest.pending r hr
  · rcases within_cons.mp hw with hw | hw
    · rw [pending?_congr (hkept w hw)] at hpending
      obtain ⟨r, hr, hbelow⟩ := hfirst.clean w (within_singleton.mpr hw) hpending
      exact ⟨r, List.mem_append_left _ hr, hbelow⟩
    · obtain ⟨r, hr, hbelow⟩ := hrest.clean w ((hwithin w).mpr hw) hpending
      exact ⟨r, List.mem_append_right _ hr, (hfirst.links.inFamily w r).mpr hbelow⟩
  · rw [within_cons, not_or] at hw
    rw [hrest.outside w (fun hin ↦ hw.2 ((hwithin w).mp hin)), hfirst.outside w (within_singleton.not.mpr hw.1)]
  · rw [within_cons, not_or] at hw
    obtain ⟨hout, habove⟩ := List.forall_mem_cons.mp habove
    rw [hrest.elsewhere w (fun hin ↦ hw.2 ((hwithin w).mp hin))
      (fun other hother hin ↦ habove other hother ((hfirst.links.inFamily w other).mpr hin))]
    exact hfirst.elsewhere w (within_singleton.not.mpr hw.1) (by simpa using hout)
  · rw [within_cons, not_or] at hw
    obtain ⟨rfl, rfl⟩ := List.append_eq_nil_iff.mp hnone
    rw [hrest.restful rfl w (fun hin ↦ hw.2 ((hwithin w).mp hin)),
      hfirst.restful rfl w (within_singleton.not.mpr hw.1)]

end Repainted

/-- A view was drawn on its own. -/
structure Wiped (f : Forest W) (v : View) (g : Forest W) : Prop where
  setting : Alike Node.setting f g
  clean : g.pending? v = none
  others : ∀ w, w ≠ v → g.node? w = f.node? w

/-- What a view asks for is done at the end of its drawing. -/
structure Answered (f : Forest W) (v : View) (again : Bool) (g : Forest W) : Prop where
  alike : Alike Node.withoutRegion f g
  pending : again = true → g.pending? v ≠ none
  others : ∀ w, ¬ f.InFamily w v → g.node? w = f.node? w
  restful : again = false → g = f

theorem WellFormed.answered (hf : f.WellFormed) (hv : f.contains v = true) (h : f.invalidate v none = .ok g) :
    Answered f v true g where
  alike := alike_of_invalidate h
  pending _ := by
    obtain ⟨node, hnode⟩ := contains_iff.mp hv
    rw [hf.pending?_invalidate hnode h]
    exact Option.some_ne_none _
  others w hw := hf.node?_invalidate hv h hw
  restful hagain := by cases hagain

theorem answered_false (f : Forest W) (v : View) : Answered f v false f where
  alike := .refl _ f
  pending hagain := by cases hagain
  others _ _ := rfl
  restful _ := rfl

/-- A view is made clean, then its subviews are drawn, and then it is to be painted again if it has asked. -/
theorem WellFormed.repainted (hf : f.WellFormed) {self below last : Forest W} {asked : List View} {again : Bool}
    (hself : Wiped f v self) (hbelow : Repainted self (f.subviewsOf v) asked below)
    (hlast : Answered below v again last) : Repainted f [v] ((if again then [v] else []) ++ asked) last := by
  have hlinks : Alike Node.links f self := hself.setting.map Prod.fst
  have hwithin := hlinks.within (f.subviewsOf v)
  have hfamily (w : View) : f.InFamily v w ↔ v = w ∨ f.Within (f.subviewsOf v) w := inFamily_iff_eq_or_subview hf
  have hfresh : ¬ f.Within (f.subviewsOf v) v := by
    rintro ⟨sub, hsub, hin⟩
    exact hf.not_inFamily_of_above ((hf.linked v sub).mpr hsub) hin
  have hbackward (w : View) (hw : f.Within (f.subviewsOf v) w) : last.node? w = below.node? w := by
    refine hlast.others w fun hin ↦ ?_
    obtain ⟨sub, hsub, hbelow'⟩ := hw
    exact hfresh ⟨sub, hsub, hbelow'.trans (((hlinks.trans hbelow.links).inFamily w v).mpr hin)⟩
  have hnone (hasked : (if again then [v] else []) ++ asked = []) : asked = [] ∧ again = false := by
    obtain ⟨hown, rfl⟩ := List.append_eq_nil_iff.mp hasked
    refine ⟨rfl, ?_⟩
    cases again with
    | false => rfl
    | true => cases hown
  refine ⟨hself.setting.trans (hbelow.setting.trans (hlast.alike.map Node.setting)), fun r hr ↦ ?_, fun r hr ↦ ?_,
    fun w hw hpending ↦ ?_, fun w hw ↦ ?_, fun w hw habove ↦ ?_, fun hasked w hw ↦ ?_⟩
  · rw [within_singleton, hfamily]
    rcases List.mem_append.mp hr with hr | hr
    · obtain ⟨-, rfl⟩ : again = true ∧ r = v := by simpa using hr
      exact .inl rfl
    · exact .inr ((hwithin r).mp (hbelow.within r hr))
  · rcases List.mem_append.mp hr with hr | hr
    · obtain ⟨hagain, rfl⟩ : again = true ∧ r = v := by simpa using hr
      exact hlast.pending hagain
    · rw [pending?_congr (hbackward r ((hwithin r).mp (hbelow.within r hr)))]
      exact hbelow.pending r hr
  · rw [within_singleton, hfamily] at hw
    rcases hw with rfl | hw
    · cases again with
      | true => exact ⟨v, by simp, .refl⟩
      | false =>
        -- The view was made clean, so what is pending comes from a request below.
        rw [hlast.restful rfl] at hpending
        have hsome : asked ≠ [] := by
          intro hasked
          rw [pending?_congr (hbelow.restful hasked v (fun hin ↦ hfresh ((hwithin v).mp hin))), hself.clean] at hpending
          exact hpending rfl
        obtain ⟨r, hr⟩ := List.exists_mem_of_ne_nil asked hsome
        exact ⟨r, List.mem_append_right _ hr, (hfamily r).mpr (.inr ((hwithin r).mp (hbelow.within r hr)))⟩
    · rw [pending?_congr (hbackward w hw)] at hpending
      obtain ⟨r, hr, hin⟩ := hbelow.clean w ((hwithin w).mpr hw) hpending
      exact ⟨r, List.mem_append_right _ hr, (hlinks.inFamily w r).mpr hin⟩
  · rw [within_singleton, hfamily, not_or] at hw
    rw [← hlast.alike.node?, hbelow.outside w (fun hin ↦ hw.2 ((hwithin w).mp hin)), hself.others w (Ne.symm hw.1)]
  · rw [within_singleton, hfamily, not_or] at hw
    have hout : ¬ f.InFamily w v := habove v (List.mem_singleton_self v)
    rw [hlast.others w (fun hin ↦ hout (((hlinks.trans hbelow.links).inFamily w v).mpr hin)),
      hbelow.elsewhere w (fun hin ↦ hw.2 ((hwithin w).mp hin)), hself.others w (Ne.symm hw.1)]
    intro sub hsub hin
    rcases inFamily_iff_eq_or_superview.mp ((hlinks.inFamily w sub).mpr hin) with rfl | ⟨p, hup, hhigher⟩
    · exact hw.2 ⟨w, hsub, .refl⟩
    · obtain rfl : p = v := Option.some.inj (hup.symm.trans ((hf.linked v sub).mpr hsub))
      exact hout hhigher
  · rw [within_singleton, hfamily, not_or] at hw
    obtain ⟨hasked, hagain⟩ := hnone hasked
    rw [hlast.restful hagain, hbelow.restful hasked w (fun hin ↦ hw.2 ((hwithin w).mp hin)),
      hself.others w (Ne.symm hw.1)]

end Forest

namespace Studio

/-! ## The walk -/

variable {conduct : DrawingConduct W A} {s t : Studio W (A × List View)} {v : View}

theorem change_eq_ok {step : Forest W → Except Halt (Forest W)} {s t : Studio W A} :
    change step s = .ok () t ↔ ∃ f, step s.forest = .ok f ∧ { s with forest := f } = t := by
  unfold change onGrove Grove.change
  cases step s.forest with
  | ok f => simp
  | error halt => simp

theorem onCanvas_eq_ok {pass : Pass (Canvas A) α} {s t : Studio W A} {answer : α} :
    onCanvas pass s = .ok answer t ↔ ∃ canvas, pass ⟨s.painter, s.ambient⟩ = .ok answer canvas ∧
      ⟨s.forest, canvas.painter, canvas.ambient⟩ = t := by
  unfold onCanvas
  cases pass ⟨s.painter, s.ambient⟩ with
  | ok found canvas => simp
  | error halt canvas => simp

/-- A subview is drawn with the origin moved, and what it leaves saved is undone. -/
theorem shifted_eq_ok {draw : View → Pass (Studio W A) Unit} {s t : Studio W A} {sub : View} {node : Node W}
    (hnode : s.forest.node? sub = some node) : shifted draw sub s = .ok () t ↔
      ∃ mid, draw sub (s.entered node.frame.origin) = .ok () mid ∧ mid.unwound s.painter.saved.length = t := by
  unfold shifted
  rw [Pass.bind_of_ok (read_of_node? hnode)]
  change (draw sub >>= fun _ ↦ onPainter fun p ↦ p.unwind s.painter.saved.length) (s.entered node.frame.origin) =
    .ok () t ↔ _
  rw [Pass.bind_eq_ok]
  constructor
  · rintro ⟨_, mid, hdraw, hlast⟩
    cases hlast
    exact ⟨mid, hdraw, rfl⟩
  · rintro ⟨mid, hdraw, rfl⟩
    exact ⟨(), mid, hdraw, rfl⟩

theorem asked_of_leavingRequest {draw : View → Rect → Pass (Canvas A) (W × Bool)} {frame : Rect}
    {s t : Canvas (A × List View)} {answer : W × Bool} (h : leavingRequest draw v frame s = .ok answer t) :
    t.ambient.shared.2 = s.ambient.shared.2 ++ if answer.2 then [v] else [] := by
  unfold leavingRequest at h
  cases hdraw : draw v frame s.plain with
  | ok found canvas =>
    rw [hdraw] at h
    cases h
    rfl
  | error halt canvas =>
    rw [hdraw] at h
    cases h

/-- The widget of a view is put back after the view was made clean. -/
theorem wiped_putBack (f : Forest W) (v : View) (widget : W) :
    Forest.Wiped f v ((lent f v).modify v fun node ↦ { node with widget := some widget }) where
  setting := (setting_lent f v).trans (.modify (fun _ ↦ by rfl) _ v)
  clean := by
    unfold lent
    rw [Forest.pending?_modify, if_pos rfl, Forest.node?_modify, if_pos rfl, Forest.node?_modify, if_pos rfl]
    cases f.node? v <;> rfl
  others w hw := by
    unfold lent
    rw [Forest.node?_modify_of_ne hw, Forest.node?_modify_of_ne hw, Forest.node?_modify_of_ne hw]

/-- A view that is drawn on its own is clean afterwards, and it is on the list if it has asked. -/
theorem wiped_of_drawSelf {again : Bool} (hv : s.forest.contains v = true)
    (h : drawSelf conduct.inquired v s = .ok again t) :
    Forest.Wiped s.forest v t.forest ∧ t.asked = s.asked ++ if again then [v] else [] := by
  obtain ⟨node, hnode⟩ := Forest.contains_iff.mp hv
  rw [drawSelf_eq hnode] at h
  cases hwidget : node.widget with
  | none =>
    rw [hwidget] at h
    cases h
    refine ⟨⟨.modify (fun _ ↦ by rfl) _ v, ?_, fun w hw ↦ Forest.node?_modify_of_ne hw _ _⟩, (List.append_nil _).symm⟩
    rw [Forest.pending?_modify, if_pos rfl, hnode]
    rfl
  | some widget =>
    rw [hwidget] at h
    obtain ⟨answer, mid, hdraw, hback⟩ := Pass.bind_eq_ok.mp h
    obtain ⟨_, put, hput, hanswer⟩ := Pass.bind_eq_ok.mp hback
    obtain ⟨forest, hforest, rfl⟩ := change_eq_ok.mp hput
    obtain ⟨-, rfl⟩ := Forest.update_eq_ok.mp hforest
    cases hanswer
    cases hconduct : conduct widget with
    | none =>
      rw [show conduct.inquired widget = none from congrArg (Option.map _) hconduct] at hdraw
      cases hdraw
      exact ⟨wiped_putBack _ _ _, (List.append_nil _).symm⟩
    | some draw =>
      rw [show conduct.inquired widget = some (leavingRequest draw) from congrArg (Option.map _) hconduct] at hdraw
      obtain ⟨canvas, hcanvas, rfl⟩ := onCanvas_eq_ok.mp hdraw
      exact ⟨wiped_putBack _ _ _, asked_of_leavingRequest hcanvas⟩

/-- Drawing a family repaints it, and the list gets longer by the views that have asked. -/
def Repaints (tops : List View) (s t : Studio W (A × List View)) : Prop :=
  ∃ asked, t.asked = s.asked ++ asked ∧ Forest.Repainted s.forest tops asked t.forest

theorem repaints_forM {depth : Nat}
    (ih : ∀ {v s t}, s.forest.WellFormed → s.forest.Fits depth v →
      drawTree conduct.inquired depth v s = .ok () t → Repaints [v] s t)
    (hf : s.forest.WellFormed) {subs : List View} (hfits : ∀ sub ∈ subs, s.forest.Fits depth sub)
    (hapart : subs.Pairwise fun a b ↦ ∀ w, s.forest.InFamily a w → ¬ s.forest.InFamily b w)
    (h : subs.forM (shifted (drawTree conduct.inquired depth)) s = .ok ⟨⟩ t) : Repaints subs s t := by
  induction subs generalizing s with
  | nil =>
    cases h
    exact ⟨[], (List.append_nil _).symm, .nil _⟩
  | cons sub subs ihs =>
    obtain ⟨hsub, hfits⟩ := List.forall_mem_cons.mp hfits
    obtain ⟨hfirst, hapart⟩ := List.pairwise_cons.mp hapart
    obtain ⟨node, hnode⟩ := Forest.contains_iff.mp hsub.contains
    obtain ⟨_, mid, hdraw, hrest⟩ := Pass.bind_eq_ok.mp h
    obtain ⟨drawn, hdrawn, rfl⟩ := (shifted_eq_ok hnode).mp hdraw
    obtain ⟨asked, hasked, hpainted⟩ := ih (s := s.entered node.frame.origin) hf hsub hdrawn
    have hlinks := hpainted.links
    obtain ⟨asked', hasked', hpainted'⟩ := ihs (s := drawn.unwound s.painter.saved.length) (hlinks.wellFormed hf)
      (fun other hother ↦ hlinks.fits.mpr (hfits other hother))
      (hapart.imp fun hne w ha hb ↦ hne w ((hlinks.inFamily _ w).mpr ha) ((hlinks.inFamily _ w).mpr hb)) hrest
    refine ⟨asked ++ asked', ?_, hpainted.cons hpainted' fun w hw hin ↦ ?_⟩
    · rw [hasked', show (drawn.unwound s.painter.saved.length).asked = _ from hasked, List.append_assoc]
      rfl
    · obtain ⟨other, hother, hin⟩ := hin
      exact hfirst other hother w hw hin

/-- What a drawing leaves pending in a family, and on the list. -/
theorem repaints_drawTree {depth : Nat} (hf : s.forest.WellFormed) (hfits : s.forest.Fits depth v)
    (h : drawTree conduct.inquired depth v s = .ok () t) : Repaints [v] s t := by
  induction depth generalizing v s t with
  | zero => exact hfits.elim
  | succ depth ih =>
    unfold drawTree at h
    obtain ⟨again, self, hself, h⟩ := Pass.bind_eq_ok.mp h
    obtain ⟨hwiped, hown⟩ := wiped_of_drawSelf hfits.1 hself
    have hlinks : Forest.Alike Node.links s.forest self.forest := hwiped.setting.map Prod.fst
    obtain ⟨node, hnode⟩ := Forest.contains_iff.mp (hlinks.contains v ▸ hfits.1)
    have hsubs : node.subviews = s.forest.subviewsOf v := by
      rw [hlinks.subviewsOf v, Forest.subviewsOf_of_node? hnode]
    rw [Pass.bind_of_ok (read_of_node? hnode), hsubs] at h
    obtain ⟨_, mid, hbelow, hlast⟩ := Pass.bind_eq_ok.mp h
    have hapart : (s.forest.subviewsOf v).Pairwise fun a b ↦
        ∀ w, self.forest.InFamily a w → ¬ self.forest.InFamily b w := by
      refine (hf.subviews_nodup v).imp_of_mem fun {a b} ha hb hne w hina hinb ↦ hne ?_
      exact hf.families_disjoint ha hb ((hlinks.inFamily a w).mpr hina) ((hlinks.inFamily b w).mpr hinb)
    obtain ⟨asked, hasked, hpainted⟩ := repaints_forM ih (hlinks.wellFormed hf)
      (fun sub hsub ↦ hlinks.fits.mpr (hfits.2 sub hsub)) hapart hbelow
    have hmid := hlinks.trans hpainted.links
    have hanswered : Forest.Answered mid.forest v again t.forest ∧ t.asked = mid.asked := by
      cases again with
      | false =>
        cases hlast
        exact ⟨Forest.answered_false _ v, rfl⟩
      | true =>
        obtain ⟨forest, hforest, rfl⟩ := change_eq_ok.mp hlast
        exact ⟨(hmid.wellFormed hf).answered (hmid.contains v ▸ hfits.1) hforest, rfl⟩
    refine ⟨_, ?_, hf.repainted hwiped hpainted hanswered.1⟩
    rw [hanswered.2, hasked, hown, List.append_assoc]

/-- Drawing a live view makes it clean with all that is below it, apart from what its widgets ask for. A view that has
asked to be drawn again is to be painted again, and no other view in the family than these and those above them. Outside
the family nothing but the pending regions of superviews is changed. If no view has asked, all of the family is clean.

What was pending before does not matter. Drawings that come to their end bring the whole to its end. -/
theorem draw_cleans {conduct : DrawingConduct W A} {s : Studio W A} {v : View} (hf : s.forest.WellFormed)
    (hv : s.forest.contains v = true) :
    (conduct.Returning → ∃ t, draw conduct v s = .ok () t) ∧
    ∀ t, draw conduct v s = .ok () t → ∃ asked,
      draw conduct.inquired v (s.withAsked []) = .ok () (t.withAsked asked) ∧
      (∀ r ∈ asked, s.forest.InFamily v r ∧ (t.forest.pending? r).isSome = true) ∧
      (∀ w, s.forest.InFamily v w → (t.forest.pending? w).isSome = true → ∃ r ∈ asked, s.forest.InFamily w r) ∧
      (∀ w, ¬ s.forest.InFamily v w →
        (t.forest.node? w).map Node.withoutRegion = (s.forest.node? w).map Node.withoutRegion ∧
          (¬ s.forest.InFamily w v → t.forest.node? w = s.forest.node? w)) ∧
      (asked = [] → ∀ w, s.forest.InFamily v w → t.forest.pending? w = none) := by
  constructor
  · intro hconduct
    obtain ⟨t, -, hrun, -⟩ := exists_draw hconduct hf hv
    exact ⟨t, hrun⟩
  · intro t hrun
    obtain ⟨u, hinquired, rfl⟩ :=
      (forgets_drawTree conduct.inquired_echoes _ v).exists_of_eq_ok (s := s.withAsked []) hrun
    obtain ⟨asked, hasked, hpainted⟩ := repaints_drawTree (s := s.withAsked []) hf (hf.fits hv) hinquired
    have hlist : u.asked = asked := hasked
    have hclean (w : View) (hw : s.forest.InFamily v w) (hpending : (u.forest.pending? w).isSome = true) :
        ∃ r ∈ asked, s.forest.InFamily w r :=
      hpainted.clean w (Forest.within_singleton.mpr hw) (Option.isSome_iff_ne_none.mp hpending)
    refine ⟨u.asked, hinquired, ?_, ?_, fun w hw ↦ ⟨?_, fun habove ↦ ?_⟩, fun hnone w hw ↦ ?_⟩
    · intro r hr
      exact ⟨Forest.within_singleton.mp (hpainted.within r (hlist ▸ hr)),
        Option.isSome_iff_ne_none.mpr (hpainted.pending r (hlist ▸ hr))⟩
    · exact hlist ▸ hclean
    · exact hpainted.outside w (Forest.within_singleton.not.mpr hw)
    · exact hpainted.elsewhere w (Forest.within_singleton.not.mpr hw)
        fun top htop ↦ List.mem_singleton.mp htop ▸ habove
    · rw [← Option.not_isSome_iff_eq_none]
      intro hpending
      obtain ⟨r, hr, -⟩ := hclean w hw hpending
      rw [← hlist, hnone] at hr
      cases hr

/-- All widgets draw nothing, and those of one view ask to be drawn again. -/
def asking (v : View) : DrawingConduct Unit Unit := fun _ ↦ some fun w _ s ↦ .ok ((), w == v) s

/-- A window, a view in it and a subview of that one, all with widgets and to be painted as a whole. -/
def untouched : Forest Unit := ((Forest.ragged.added ⟨1⟩ ⟨2⟩).added ⟨2⟩ ⟨3⟩).equipped () [⟨1⟩, ⟨2⟩, ⟨3⟩]

/-- The view in the middle asks to be drawn again. It is pending afterwards, and its subview is clean. -/
theorem draw_cleans_untouched : ∃ t : Studio Unit Unit, untouched.WellFormed ∧ untouched.contains ⟨1⟩ = true ∧
    [⟨1⟩, ⟨2⟩, ⟨3⟩].map (fun v ↦ (untouched.pending? v).isSome) = [true, true, true] ∧
      draw (asking ⟨2⟩) ⟨1⟩ ⟨untouched, .standard, ⟨#[], ()⟩⟩ = .ok () t ∧
      draw (asking ⟨2⟩).inquired ⟨1⟩ ⟨untouched, .standard, ⟨#[], ((), [])⟩⟩ = .ok () (t.withAsked [⟨2⟩]) ∧
        (t.forest.pending? ⟨2⟩).isSome = true ∧ t.forest.pending? ⟨3⟩ = none := by
  have hf : untouched.WellFormed :=
    Forest.reachable_wellFormed (((Forest.reaches_ragged.added _ _).added _ _).equipped _ _)
  have hreturning : (asking ⟨2⟩).Returning := by
    rintro widget draw hdraw v frame s
    cases hdraw
    exact ⟨_, _, rfl⟩
  have hlive : untouched.contains ⟨1⟩ = true := by decide +kernel
  have hbefore : [⟨1⟩, ⟨2⟩, ⟨3⟩].map (fun v ↦ (untouched.pending? v).isSome) = [true, true, true] := by decide +kernel
  have hlisting : untouched.listing ⟨1⟩ = [⟨1⟩, ⟨2⟩, ⟨3⟩] ∧ untouched.listing ⟨3⟩ = [⟨3⟩] := by
    constructor <;> decide +kernel
  have hlist : (Pass.final (draw (asking ⟨2⟩).inquired ⟨1⟩ ⟨untouched, .standard, ⟨#[], ((), [])⟩⟩)).asked =
      [⟨2⟩] := by decide +kernel
  have hleaf : untouched.contains ⟨3⟩ = true := by decide +kernel
  generalize untouched = f at *
  obtain ⟨hruns, hdraws⟩ := draw_cleans (s := ⟨f, .standard, ⟨#[], ()⟩⟩) hf hlive
  obtain ⟨t, hrun⟩ := hruns hreturning
  obtain ⟨asked, hinquired, hpending, hclean, -⟩ := hdraws t hrun
  obtain rfl : asked = [⟨2⟩] := by
    rw [show draw (asking ⟨2⟩).inquired ⟨1⟩ ⟨f, .standard, ⟨#[], ((), [])⟩⟩ = _ from hinquired] at hlist
    exact hlist
  refine ⟨t, hf, hlive, hbefore, hrun, hinquired, (hpending ⟨2⟩ (List.mem_singleton_self _)).2, ?_⟩
  rw [← Option.not_isSome_iff_eq_none]
  intro hsome
  have hfamily : f.InFamily ⟨1⟩ ⟨3⟩ := (hf.mem_listing_iff hlive).mp (by simp [hlisting.1])
  obtain ⟨r, hr, hbelow⟩ := hclean ⟨3⟩ hfamily hsome
  have hmem := (hf.mem_listing_iff hleaf).mpr hbelow
  rw [hlisting.2, List.mem_singleton.mp hr] at hmem
  simp at hmem

end Studio

end RetainedUi
