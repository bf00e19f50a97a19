import RetainedUi.Proofs.Forest.Notes
import RetainedUi.Proofs.Forest.Placing
import RetainedUi.Proofs.Forest.Preorder

/-!
# One pass of layout

A layout that only gives frames to the subviews of its view sets marks, and takes none away: a subview that gets a
new size is marked, together with everything below it. These views are visited later in the same pass, so one pass is
enough. It runs the layouts of the views that were marked before, and of those that got a new size on the way, a view
before the views below it and none of them twice.

To speak of the layouts that are run, each of them leaves a note of its view and of the forest before and after it.
The notes are kept beside the state that widgets share, where nothing looks at them.
-/

namespace RetainedUi

/-- One run of a layout: its view, and the forest before and after it. -/
structure Placement (W : Type) where
  view : View
  before : Forest W
  after : Forest W

variable {W A : Type}

namespace Grove

def placements (s : Grove W (A × List (Placement W))) : List (Placement W) := s.ambient.shared.2

/-- A grove with notes. -/
def withPlacements (s : Grove W A) (placements : List (Placement W)) : Grove W (A × List (Placement W)) :=
  { s with ambient := { s.ambient with shared := (s.ambient.shared, placements) } }

end Grove

/-- A layout that leaves a note, also if it halts. -/
def leavingPlacement (layout : View → Pass (Grove W A) W) (v : View) : Pass (Grove W (A × List (Placement W))) W :=
  fun s ↦
    match layout v s.plain with
    | .ok widget t => .ok widget (t.withPlacements (s.placements ++ [⟨v, s.forest, t.forest⟩]))
    | .error halt t => .error halt (t.withPlacements (s.placements ++ [⟨v, s.forest, t.forest⟩]))

/-- The same widgets, whose layouts leave notes. -/
def LayoutConduct.recorded (conduct : LayoutConduct W A) : LayoutConduct W (A × List (Placement W)) :=
  fun widget ↦ (conduct widget).map leavingPlacement

namespace Forest

/-! ## Dropping the notes -/

section

variable (conduct : LayoutConduct W A)

theorem forgets_leavingPlacement (layout : View → Pass (Grove W A) W) (v : View) :
    Pass.Forgets Grove.plain (leavingPlacement layout v) (layout v) := by
  intro s
  unfold leavingPlacement
  cases layout v s.plain <;> rfl

theorem forgets_arrange (v : View) : Pass.Forgets Grove.plain (arrange conduct.recorded v) (arrange conduct v) := by
  unfold arrange
  refine Pass.forgets_bind (Grove.forgets_change _) fun _ ↦ Pass.forgets_bind (Grove.forgets_ask _) fun node ↦ ?_
  cases node.widget with
  | none => exact Pass.forgets_pure _
  | some widget =>
    refine Pass.forgets_bind (Grove.forgets_change _) fun _ ↦ ?_
    dsimp only [LayoutConduct.recorded]
    cases conduct widget with
    | none => exact Pass.forgets_bind (Pass.forgets_pure _) fun _ ↦ Grove.forgets_change _
    | some layout => exact Pass.forgets_bind (forgets_leavingPlacement layout v) fun _ ↦ Grove.forgets_change _

/-- Nothing looks at the notes. -/
theorem forgets_settle (depth : Nat) (forced : Bool) (v : View) :
    Pass.Forgets Grove.plain (settle conduct.recorded depth forced v) (settle conduct depth forced v) := by
  induction depth generalizing forced v with
  | zero => exact Pass.forgets_throw _
  | succ depth ih =>
    have hsubs : Pass.Forgets Grove.plain
        (do
          let node ← Grove.ask fun f ↦ f.read v
          node.subviews.forM fun sub ↦ settle conduct.recorded depth false sub)
        (do
          let node ← Grove.ask fun f ↦ f.read v
          node.subviews.forM fun sub ↦ settle conduct depth false sub) :=
      Pass.forgets_bind (Grove.forgets_ask _) fun node ↦ Pass.forgets_forM (fun sub ↦ ih false sub) node.subviews
    unfold settle
    refine Pass.forgets_bind (Grove.forgets_ask _) fun node ↦ ?_
    split
    · exact Pass.forgets_bind (forgets_arrange conduct v) fun _ ↦ hsubs
    · exact hsubs

end

/-! ## What a pass does -/

/-- Whether a view has a widget that performs a layout. -/
def HasLayout (conduct : LayoutConduct W A) (f : Forest W) (v : View) : Prop :=
  ∃ widget layout, f.widget? v = some widget ∧ conduct widget = some layout

/-- Other views than one keep their widgets and the marks that they have, and all views keep their links. -/
structure Spares (v : View) (f g : Forest W) : Prop where
  links : Alike Node.links f g
  marks : ∀ w, w ≠ v → f.marked w = true → g.marked w = true
  widgets : ∀ w, w ≠ v → g.widget? w = f.widget? w

/-- A view was laid out on its own: its subviews got their frames, and they are not settled yet. -/
structure Arranged (conduct : LayoutConduct W A) (v : View) (f g : Forest W) (log : List (Placement W)) : Prop
    extends Spares v f g where
  placed : ∀ p ∈ log, Arranges p.view p.before p.after
  order : (log.map Placement.view).Sublist [v]
  runs : HasLayout conduct f v → v ∈ log.map Placement.view
  resized : ∀ p ∈ log, ∀ sub, Resizes p.view sub p.before p.after → sub ∈ f.subviewsOf v ∧ g.marked sub = true

/-- A pass over some views has run the layouts of those that needed it. -/
structure LaysOut (conduct : LayoutConduct W A) (part : List View) (f g : Forest W) (log : List (Placement W)) :
    Prop where
  links : Alike Node.links f g
  marks : ∀ w ∉ part, g.marked w = f.marked w
  widgets : ∀ w ∉ part, g.widget? w = f.widget? w
  placed : ∀ p ∈ log, Arranges p.view p.before p.after
  /-- The layouts are run in the order of the views, and each of them once at most. -/
  order : (log.map Placement.view).Sublist part
  /-- A view that is marked has its layout run. -/
  runs : ∀ w ∈ part, f.marked w = true → HasLayout conduct f w → w ∈ log.map Placement.view
  /-- So has a view that gets a new size by one of the layouts. -/
  resized : ∀ p ∈ log, ∀ sub, Resizes p.view sub p.before p.after →
    sub ∈ part ∧ (HasLayout conduct f sub → sub ∈ log.map Placement.view)

section

variable {conduct : LayoutConduct W A} {f g h : Forest W} {v w : View} {part part' : List View}
variable {log log' : List (Placement W)}

theorem hasLayout_congr (hwidget : g.widget? w = f.widget? w) : HasLayout conduct g w ↔ HasLayout conduct f w := by
  rw [HasLayout, HasLayout, hwidget]

theorem LaysOut.nil (f : Forest W) : LaysOut conduct [] f f [] where
  links := .refl _ f
  marks _ _ := rfl
  widgets _ _ := rfl
  placed _ hp := by cases hp
  order := .refl _
  runs _ hw := by cases hw
  resized _ hp := by cases hp

/-- One pass after another, over other views. -/
theorem LaysOut.append (hfirst : LaysOut conduct part f g log) (hlast : LaysOut conduct part' g h log')
    (hdisjoint : part.Disjoint part') : LaysOut conduct (part ++ part') f h (log ++ log') where
  links := hfirst.links.trans hlast.links
  marks w hw := by
    rw [List.mem_append, not_or] at hw
    exact (hlast.marks w hw.2).trans (hfirst.marks w hw.1)
  widgets w hw := by
    rw [List.mem_append, not_or] at hw
    exact (hlast.widgets w hw.2).trans (hfirst.widgets w hw.1)
  placed := List.forall_mem_append.mpr ⟨hfirst.placed, hlast.placed⟩
  order := by
    rw [List.map_append]
    exact hfirst.order.append hlast.order
  runs w hw hmarked hlayout := by
    rw [List.map_append, List.mem_append]
    rcases List.mem_append.mp hw with hw | hw
    · exact .inl (hfirst.runs w hw hmarked hlayout)
    · have hother : w ∉ part := fun hpart ↦ hdisjoint hpart hw
      refine .inr (hlast.runs w hw ?_ ?_)
      · rw [hfirst.marks w hother, hmarked]
      · exact (hasLayout_congr (hfirst.widgets w hother)).mpr hlayout
  resized p hp sub hresizes := by
    rw [List.map_append, List.mem_append, List.mem_append]
    rcases List.mem_append.mp hp with hp | hp
    · obtain ⟨hsub, hruns⟩ := hfirst.resized p hp sub hresizes
      exact ⟨.inl hsub, fun hlayout ↦ .inl (hruns hlayout)⟩
    · obtain ⟨hsub, hruns⟩ := hlast.resized p hp sub hresizes
      have hother : sub ∉ part := fun hpart ↦ hdisjoint hpart hsub
      exact ⟨.inr hsub, fun hlayout ↦ .inr (hruns ((hasLayout_congr (hfirst.widgets sub hother)).mpr hlayout))⟩

/-- A view that is not marked is passed over. -/
theorem LaysOut.of_unmarked (hrest : LaysOut conduct part f g log) (hv : f.marked v = false) :
    LaysOut conduct (v :: part) f g log where
  links := hrest.links
  marks w hw := hrest.marks w fun hpart ↦ hw (List.mem_cons_of_mem v hpart)
  widgets w hw := hrest.widgets w fun hpart ↦ hw (List.mem_cons_of_mem v hpart)
  placed := hrest.placed
  order := hrest.order.cons v
  runs w hw hmarked hlayout := by
    rcases List.mem_cons.mp hw with rfl | hw
    · cases hv.symm.trans hmarked
    · exact hrest.runs w hw hmarked hlayout
  resized p hp sub hresizes := by
    obtain ⟨hsub, hruns⟩ := hrest.resized p hp sub hresizes
    exact ⟨List.mem_cons_of_mem v hsub, hruns⟩

/-- A view that is laid out marks subviews only, which are among the views that follow. -/
theorem LaysOut.of_arranged (hself : Arranged conduct v f g log) (hrest : LaysOut conduct part g h log')
    (hfresh : v ∉ part) (hsubs : ∀ sub ∈ f.subviewsOf v, sub ∈ part)
    (hwithin : ∀ w ∉ v :: part, g.marked w = f.marked w) : LaysOut conduct (v :: part) f h (log ++ log') where
  links := hself.links.trans hrest.links
  marks w hw := (hrest.marks w fun hpart ↦ hw (List.mem_cons_of_mem v hpart)).trans (hwithin w hw)
  widgets w hw := by
    rw [List.mem_cons, not_or] at hw
    exact (hrest.widgets w hw.2).trans (hself.widgets w hw.1)
  placed := List.forall_mem_append.mpr ⟨hself.placed, hrest.placed⟩
  order := by
    rw [List.map_append]
    exact hself.order.append hrest.order
  runs w hw hmarked hlayout := by
    rw [List.map_append, List.mem_append]
    rcases List.mem_cons.mp hw with rfl | hw
    · exact .inl (hself.runs hlayout)
    · have hne : w ≠ v := fun hwv ↦ hfresh (hwv ▸ hw)
      exact .inr (hrest.runs w hw (hself.marks w hne hmarked) ((hasLayout_congr (hself.widgets w hne)).mpr hlayout))
  resized p hp sub hresizes := by
    -- Whichever layout resizes it, the subview is among those that follow.
    have hlater (hsub : sub ∈ part) (hruns : HasLayout conduct g sub → sub ∈ log'.map Placement.view) :
        sub ∈ v :: part ∧ (HasLayout conduct f sub → sub ∈ (log ++ log').map Placement.view) := by
      have hne : sub ≠ v := fun hsv ↦ hfresh (hsv ▸ hsub)
      refine ⟨List.mem_cons_of_mem v hsub, fun hlayout ↦ ?_⟩
      rw [List.map_append, List.mem_append]
      exact .inr (hruns ((hasLayout_congr (hself.widgets sub hne)).mpr hlayout))
    rcases List.mem_append.mp hp with hp | hp
    · obtain ⟨hsub, hmarked⟩ := hself.resized p hp sub hresizes
      exact hlater (hsubs sub hsub) (hrest.runs sub (hsubs sub hsub) hmarked)
    · obtain ⟨hsub, hruns⟩ := hrest.resized p hp sub hresizes
      exact hlater hsub hruns

end

/-! ## Laying out one view -/

namespace Spares

variable {f g h : Forest W} {v : View}

theorem trans (hfg : Spares v f g) (hgh : Spares v g h) : Spares v f h where
  links := hfg.links.trans hgh.links
  marks w hw hmarked := hgh.marks w hw (hfg.marks w hw hmarked)
  widgets w hw := (hgh.widgets w hw).trans (hfg.widgets w hw)

theorem modify {change : Node W → Node W} (hlinks : ∀ node, (change node).links = node.links) (f : Forest W)
    (v : View) : Spares v f (f.modify v change) where
  links := .modify hlinks f v
  marks _ hw hmarked := (marked_modify_of_ne hw f change).trans hmarked
  widgets _ hw := widget?_modify_of_ne hw f change

theorem of_arranges (harranges : Arranges v f g) : Spares v f g where
  links := harranges.links
  marks _ _ hmarked := harranges.marked hmarked
  widgets w _ := (harranges.widgets.bind_node? id w).symm

end Spares

theorem Arranging.recorded {conduct : LayoutConduct W A} (hconduct : Arranging conduct) :
    Arranging conduct.recorded := by
  intro widget layout hlayout v s
  obtain ⟨plain, hplain, rfl⟩ := Option.map_eq_some_iff.mp hlayout
  have harranges := hconduct widget plain hplain v s.plain
  unfold leavingPlacement
  cases hrun : plain v s.plain <;> rw [hrun] at harranges <;> exact harranges

/-- A computation that comes to its end and is a pass over some views. -/
def Performs (conduct : LayoutConduct W A) (part : List View)
    (pass : Pass (Grove W (A × List (Placement W))) PUnit) (s : Grove W (A × List (Placement W))) : Prop :=
  ∃ t log, pass s = .ok ⟨⟩ t ∧ t.placements = s.placements ++ log ∧ LaysOut conduct part s.forest t.forest log

/-- The forest in which a layout is run: its view has no mark any more, and its widget is taken out. -/
def clearedFor (f : Forest W) (v : View) : Forest W :=
  (f.modify v Node.withoutMark).modify v fun node ↦ { node with widget := none }

theorem Spares.withoutMark (f : Forest W) (v : View) : Spares v f (f.modify v Node.withoutMark) :=
  .modify (fun _ ↦ by rfl) f v

theorem Spares.clearedFor (f : Forest W) (v : View) : Spares v f (f.clearedFor v) :=
  (withoutMark f v).trans (.modify (fun _ ↦ by rfl) _ v)

theorem Spares.putBack (f : Forest W) (v : View) (widget : W) :
    Spares v f (f.modify v fun node ↦ { node with widget := some widget }) :=
  .modify (fun _ ↦ by rfl) f v

/-- Laying out a live view on its own. -/
theorem arrange_eq {conduct : LayoutConduct W A} {s : Grove W A} {v : View} {node : Node W}
    (hnode : s.forest.node? v = some node) : arrange conduct v s =
      match node.widget with
      | none => .ok () { s with forest := s.forest.modify v Node.withoutMark }
      | some widget =>
        ((match conduct widget with
          | some layout => layout v
          | none => pure widget) >>= fun widget ↦
            Grove.change fun f ↦ .ok (f.modify v fun node ↦ { node with widget := some widget }))
          { s with forest := s.forest.clearedFor v } := by
  have hlive : s.forest.contains v = true := contains_iff.mpr ⟨node, hnode⟩
  have hmark : Grove.change (fun f ↦ f.update v Node.withoutMark) s =
      .ok () { s with forest := s.forest.modify v Node.withoutMark } :=
    Grove.change_eq_ok.mpr ⟨_, update_eq_ok.mpr ⟨hlive, rfl⟩, rfl⟩
  have hread : Grove.ask (fun f ↦ f.read v) { s with forest := s.forest.modify v Node.withoutMark } =
      .ok node.withoutMark { s with forest := s.forest.modify v Node.withoutMark } :=
    Grove.ask_eq_ok.mpr ⟨read_eq_ok.mpr (node?_modify_self hnode _), rfl⟩
  unfold arrange
  refine (Pass.bind_of_ok hmark).trans ((Pass.bind_of_ok hread).trans ?_)
  dsimp only [Node.withoutMark]
  cases node.widget with
  | none => rfl
  | some widget =>
    have htake : Grove.change (fun f ↦ f.update v fun node ↦ { node with widget := none })
        { s with forest := s.forest.modify v Node.withoutMark } = .ok () { s with forest := s.forest.clearedFor v } :=
      Grove.change_eq_ok.mpr ⟨_, update_eq_ok.mpr ⟨by simpa using hlive, rfl⟩, rfl⟩
    refine (Pass.bind_of_ok htake).trans ?_
    dsimp only
    cases conduct widget <;> rfl

section

variable {conduct : LayoutConduct W A} (hconduct : conduct.Placing) {s : Grove W (A × List (Placement W))} {v : View}
include hconduct

/-- Every live view can be laid out. -/
theorem exists_arrange (hf : s.forest.WellFormed) (hv : s.forest.contains v = true) :
    ∃ t log, arrange conduct.recorded v s = .ok () t ∧ t.placements = s.placements ++ log ∧
      Arranged conduct v s.forest t.forest log := by
  obtain ⟨node, hnode⟩ := contains_iff.mp hv
  have hwidget : s.forest.widget? v = node.widget := widget?_of_node? hnode
  have hcleared := Spares.clearedFor s.forest v
  rw [arrange_eq hnode]
  cases hhas : node.widget with
  | none =>
    refine ⟨_, [], rfl, (List.append_nil _).symm, .withoutMark _ v, by simp, List.nil_sublist _, ?_, by simp⟩
    rintro ⟨widget, -, hsome, -⟩
    cases (hwidget.trans hhas).symm.trans hsome
  | some widget =>
    dsimp only
    cases hlayout : conduct widget with
    | none =>
      have hnone : conduct.recorded widget = none := congrArg (Option.map _) hlayout
      rw [hnone]
      refine ⟨_, [], rfl, (List.append_nil _).symm, hcleared.trans (.putBack _ v widget), by simp,
        List.nil_sublist _, ?_, by simp⟩
      rintro ⟨other, layout, hsome, hother⟩
      cases (hwidget.trans hhas).symm.trans hsome
      cases hlayout.symm.trans hother
    | some layout =>
      have hsome : conduct.recorded widget = some (leavingPlacement layout) := congrArg (Option.map _) hlayout
      obtain ⟨widget', laid, hrun, harranges⟩ := hconduct.exists_ok hlayout v
        (s := ⟨s.forest.clearedFor v, s.ambient.plain⟩) (hcleared.links.wellFormed hf)
      have hnoted : leavingPlacement layout v { s with forest := s.forest.clearedFor v } =
          .ok widget' (laid.withPlacements (s.placements ++ [⟨v, s.forest.clearedFor v, laid.forest⟩])) := by
        unfold leavingPlacement
        change (match layout v ⟨s.forest.clearedFor v, s.ambient.plain⟩ with | .ok _ _ => _ | .error _ _ => _) = _
        rw [hrun]
        rfl
      rw [hsome]
      refine ⟨_, [⟨v, s.forest.clearedFor v, laid.forest⟩], Pass.bind_of_ok hnoted, rfl,
        (hcleared.trans (.of_arranges harranges)).trans (.putBack _ v widget'), by simpa using harranges, .refl _,
        fun _ ↦ by simp, ?_⟩
      rintro p hp sub hresizes
      obtain rfl := List.mem_singleton.mp hp
      obtain ⟨hsub, hmarked⟩ := hresizes.marked
      refine ⟨hcleared.links.subviewsOf v ▸ hsub, ?_⟩
      have hback : Alike Node.needsLayout laid.forest (laid.forest.modify v fun node ↦
          { node with widget := some widget' }) := .modify (fun _ ↦ by rfl) laid.forest v
      exact (hback.marked sub).trans hmarked

omit hconduct in
/-- Views whose families have nothing in common are settled one after the other. -/
theorem performs_forM {depth : Nat} (ih : ∀ {v : View} {s : Grove W (A × List (Placement W))}, s.forest.WellFormed →
      s.forest.Fits depth v →
      Performs conduct (s.forest.preorder depth v) (settle conduct.recorded depth false v) s)
    (hf : s.forest.WellFormed) (subs : List View) (hfits : ∀ sub ∈ subs, s.forest.Fits depth sub)
    (hnodup : (subs.flatMap (s.forest.preorder depth)).Nodup) :
    Performs conduct (subs.flatMap (s.forest.preorder depth))
      (subs.forM fun sub ↦ settle conduct.recorded depth false sub) s := by
  induction subs generalizing s with
  | nil => exact ⟨s, [], rfl, (List.append_nil _).symm, .nil _⟩
  | cons sub subs ihs =>
    obtain ⟨hsub, hfits⟩ := List.forall_mem_cons.mp hfits
    rw [List.flatMap_cons] at hnodup ⊢
    obtain ⟨-, hnodup, hdisjoint⟩ := List.nodup_append'.mp hnodup
    obtain ⟨mid, log, hfirst, hlog, hlays⟩ := ih hf hsub
    have hsame : mid.forest.preorder depth = s.forest.preorder depth := funext (hlays.links.preorder_eq depth)
    obtain ⟨t, log', hrest, hlog', hlays'⟩ := ihs (s := mid) (hlays.links.wellFormed hf)
      (fun other hother ↦ hlays.links.fits.mpr (hfits other hother)) (hsame ▸ hnodup)
    rw [hsame] at hlays'
    exact ⟨t, log ++ log', (Pass.bind_of_ok hfirst).trans hrest, by rw [hlog', hlog, List.append_assoc],
      hlays.append hlays' hdisjoint⟩

theorem performs_settle {depth : Nat} (hf : s.forest.WellFormed) (hfits : s.forest.Fits depth v) :
    Performs conduct (s.forest.preorder depth v) (settle conduct.recorded depth false v) s := by
  induction depth generalizing v s with
  | zero => exact hfits.elim
  | succ depth ih =>
    obtain ⟨node, hnode⟩ := contains_iff.mp hfits.1
    have hread : Grove.ask (fun f ↦ f.read v) s = .ok node s := Grove.ask_eq_ok.mpr ⟨read_eq_ok.mpr hnode, rfl⟩
    have hnodup := hf.nodup_preorder hfits
    obtain ⟨hfresh, hrest⟩ := List.nodup_cons.mp hnodup
    -- The subviews are settled in whatever forest with the same links the view itself leaves.
    have hsubs (mid : Grove W (A × List (Placement W))) (hlinks : Alike Node.links s.forest mid.forest) :
        Performs conduct ((s.forest.subviewsOf v).flatMap (s.forest.preorder depth)) (do
          let node ← Grove.ask fun f ↦ f.read v
          node.subviews.forM fun sub ↦ settle conduct.recorded depth false sub) mid := by
      obtain ⟨other, hother, hsame⟩ := hlinks.exists_node? hnode
      have hreads : Grove.ask (fun f ↦ f.read v) mid = .ok other mid :=
        Grove.ask_eq_ok.mpr ⟨read_eq_ok.mpr hother, rfl⟩
      have hpreorder : mid.forest.preorder depth = s.forest.preorder depth := funext (hlinks.preorder_eq depth)
      have hall := performs_forM (s := mid) ih (hlinks.wellFormed hf) (s.forest.subviewsOf v)
        (fun sub hsub ↦ hlinks.fits.mpr (hfits.2 sub hsub)) (hpreorder ▸ hrest)
      rw [hpreorder, subviewsOf_of_node? hnode, ← (Node.links_eq_links_iff.mp hsame).2.2] at hall
      rw [subviewsOf_of_node? hnode, ← (Node.links_eq_links_iff.mp hsame).2.2]
      obtain ⟨t, log, hrun, hlog⟩ := hall
      exact ⟨t, log, (Pass.bind_of_ok hreads).trans hrun, hlog⟩
    unfold settle
    cases hmarked : node.needsLayout with
    | false =>
      obtain ⟨t, log, hrun, hlog, hlays⟩ := hsubs s (.refl _ _)
      refine ⟨t, log, (Pass.bind_of_ok hread).trans ?_, hlog, hlays.of_unmarked ?_⟩
      · rw [hmarked]
        exact hrun
      · simpa [marked, hnode] using hmarked
    | true =>
      obtain ⟨mid, log, harrange, hlog, harranged⟩ := exists_arrange hconduct hf hfits.1
      obtain ⟨t, log', hrun, hlog', hlays⟩ := hsubs mid harranged.links
      refine ⟨t, log ++ log', (Pass.bind_of_ok hread).trans ?_, by rw [hlog', hlog, List.append_assoc],
        .of_arranged harranged hlays hfresh (fun sub hsub ↦ ?_) fun w hw ↦ ?_⟩
      · rw [hmarked]
        exact (Pass.bind_of_ok harrange).trans hrun
      · exact List.mem_flatMap.mpr ⟨sub, hsub, (hf.mem_preorder_iff (hfits.2 sub hsub)).mpr .refl⟩
      · have hwithin := (marksWithin_arrange hconduct.arranging.recorded hf harrange).1
        exact hwithin.outside w fun hfamily ↦ hw ((hf.mem_preorder_iff hfits).mpr hfamily)

end

/-- One pass of layout settles the family of a view, whatever was marked before and whatever frames the layouts give.
It comes to its end within a depth that is no larger than the number of slots. Every view whose layout was needed at
the start has it run, and so has every view that gets a new size by a layout of the pass. No layout is run twice, or
after one of a view below it. No links are changed, and no marks outside of the family. -/
theorem layoutIfNeeded_settles {conduct : LayoutConduct W A} (hconduct : conduct.Placing) {s : Grove W A} {v : View}
    (hf : s.forest.WellFormed) (hv : s.forest.contains v = true) {depth : Nat}
    (hdepth : s.forest.slots.size ≤ depth) :
    ∃ t log, layoutIfNeeded conduct depth v s = .ok () t ∧
      layoutIfNeeded conduct.recorded depth v (s.withPlacements []) = .ok () (t.withPlacements log) ∧
      t.forest.needsLayoutBelow v = .ok false ∧
      (∀ w, s.forest.InFamily v w → s.forest.marked w = true → HasLayout conduct s.forest w →
        w ∈ log.map Placement.view) ∧
      (∀ p ∈ log, Arranges p.view p.before p.after ∧
        ∀ sub, Resizes p.view sub p.before p.after → s.forest.InFamily v sub ∧
          (HasLayout conduct s.forest sub → sub ∈ log.map Placement.view)) ∧
      (log.map Placement.view).Sublist (s.forest.listing v) ∧ (log.map Placement.view).Nodup ∧
      (log.map Placement.view).Pairwise (fun x y ↦ ¬ s.forest.Below y x) ∧
      Alike Node.links s.forest t.forest ∧
      ∀ w, ¬ s.forest.InFamily v w → t.forest.marked w = s.forest.marked w := by
  have hfits : s.forest.Fits depth v := ((hf.fits hv).of_le hdepth).1
  have hlisting : s.forest.preorder depth v = s.forest.listing v := hf.listing_eq_preorder hv hdepth
  obtain ⟨t, log, hrun, hlog, hlays⟩ := performs_settle hconduct (s := s.withPlacements []) hf hfits
  have hplain : layoutIfNeeded conduct depth v s = .ok () t.plain :=
    (forgets_settle conduct depth false v).eq_ok hrun
  obtain ⟨hsettled, hclean⟩ := settled_layoutIfNeeded hconduct.arranging hf hplain
  have hmem (w : View) : w ∈ s.forest.preorder depth v ↔ s.forest.InFamily v w := hf.mem_preorder_iff hfits
  refine ⟨t.plain, log, hplain, ?_, hclean, fun w hw ↦ hlays.runs w ((hmem w).mpr hw),
    fun p hp ↦ ⟨hlays.placed p hp, fun sub hresizes ↦ ?_⟩, hlisting ▸ hlays.order,
    (hf.nodup_preorder hfits).sublist hlays.order, (hf.pairwise_preorder hfits).sublist hlays.order, hsettled.links,
    hsettled.outside⟩
  · have hnotes : t.placements = log := hlog
    exact hnotes ▸ hrun
  · exact (hlays.resized p hp sub hresizes).imp_left (hmem sub).mp

/-- Every view gives all of its subviews the same frame. -/
def stacking (frame : Rect) : LayoutConduct Unit Unit := fun _ ↦ some fun v s ↦
  (Grove.place ((s.forest.subviewsOf v).map fun sub ↦ (sub, frame)) >>= fun _ ↦ pure ()) s

/-- The layouts of both views are run, that of the superview first. -/
theorem layoutIfNeeded_settles_nested : ∃ (t : Grove Unit Unit) (log : List (Placement Unit)),
    nested.marked ⟨1⟩ = true ∧ nested.marked ⟨2⟩ = true ∧ nested.slots.size = 3 ∧
      layoutIfNeeded (stacking (.ofSides 0 0 8 8)) 3 ⟨1⟩ ⟨nested, ⟨#[], ()⟩⟩ = .ok () t ∧
      layoutIfNeeded (stacking (.ofSides 0 0 8 8)).recorded 3 ⟨1⟩ ⟨nested, ⟨#[], ((), [])⟩⟩ =
        .ok () (t.withPlacements log) ∧
      log.map Placement.view = [⟨1⟩, ⟨2⟩] ∧ t.forest.needsLayoutBelow ⟨1⟩ = .ok false := by
  have hplacing : (stacking (.ofSides 0 0 8 8)).Placing := by
    rintro widget layout hlayout v s
    cases hlayout
    refine ⟨_, (), s.ambient, fun call hcall ↦ ?_, rfl⟩
    obtain ⟨sub, hsub, rfl⟩ := List.mem_map.mp hcall
    exact hsub
  obtain ⟨t, log, hrun, hnoted, hclean, hruns, -, horder, -⟩ := layoutIfNeeded_settles hplacing
    (s := ⟨nested, ⟨#[], ()⟩⟩) (v := ⟨1⟩) wellFormed_nested rfl (show nested.slots.size ≤ 3 by decide)
  have hfirst := hruns ⟨1⟩ .refl rfl ⟨(), _, rfl, rfl⟩
  have hsecond := hruns ⟨2⟩ (.single (show nested.superview? ⟨2⟩ = some ⟨1⟩ from rfl)) rfl ⟨(), _, rfl, rfl⟩
  refine ⟨t, log, rfl, rfl, rfl, hrun, hnoted, ?_, hclean⟩
  have hlisting : nested.listing ⟨1⟩ = [⟨1⟩, ⟨2⟩] := rfl
  have hlength : 2 ≤ (log.map Placement.view).length :=
    (show [(⟨1⟩ : View), ⟨2⟩].Nodup by decide).length_le_of_subset (by simp [hfirst, hsecond])
  exact (hlisting ▸ horder).eq_of_length_le hlength

end Forest

end RetainedUi
