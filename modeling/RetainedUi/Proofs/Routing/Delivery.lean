import RetainedUi.Proofs.Forest.LeafCaches
import RetainedUi.Proofs.Routing.Receipts

/-!
# Delivering to calm receivers

A receiver is calm if it comes to an answer and leaves the views as they were: the same handles live, with
the same links and the same widgets. It may do anything else, such as post events, schedule callbacks, set
redirects, invalidate, and amend the event.

An event on its way to calm receivers is served to a list of views: each of them receives what the one
before it made of the event, until one stops it or all have received it.
-/

namespace RetainedUi

variable {W D A : Type}

/-- A receiver that answers with the event it was given changes nothing about it. -/
theorem Event.amended_self (e : Event) : e.amended e = e := by
  obtain ⟨sender, kind, info, addressee, target, cancellable, cancelled, propagating⟩ := e
  simp [Event.amended]

/-! ## Views that stay as they are -/

/-- The second forest is reached from the first one, with the same views and links, and with the same
widgets except at some views. -/
structure Undisturbed (touched : List View) (f g : Forest W) : Prop where
  reaches : f.Reaches g
  contains : ∀ v, g.contains v = f.contains v
  superview : ∀ v, g.superview? v = f.superview? v
  subviews : ∀ v, g.subviewsOf v = f.subviewsOf v
  widget : ∀ v, v ∉ touched → g.widget? v = f.widget? v

namespace Undisturbed

variable {touched others : List View} {f g h : Forest W}

theorem refl (touched : List View) (f : Forest W) : Undisturbed touched f f :=
  ⟨.refl f, fun _ ↦ rfl, fun _ ↦ rfl, fun _ ↦ rfl, fun _ _ ↦ rfl⟩

theorem trans (hfg : Undisturbed touched f g) (hgh : Undisturbed touched g h) :
    Undisturbed touched f h where
  reaches := hfg.reaches.trans hgh.reaches
  contains v := (hgh.contains v).trans (hfg.contains v)
  superview v := (hgh.superview v).trans (hfg.superview v)
  subviews v := (hgh.subviews v).trans (hfg.subviews v)
  widget v hv := (hgh.widget v hv).trans (hfg.widget v hv)

theorem mono (hfg : Undisturbed touched f g) (hmore : touched ⊆ others) : Undisturbed others f g :=
  { hfg with widget := fun v hv ↦ hfg.widget v fun hmem ↦ hv (hmore hmem) }

theorem of_alike (hreach : f.Reaches g) (hlinks : Forest.Alike Node.links f g)
    (hwidget : Forest.Alike Node.widget f g) : Undisturbed touched f g where
  reaches := hreach
  contains v := (hlinks.contains v).symm
  superview v := (hlinks.superview? v).symm
  subviews v := (hlinks.subviewsOf v).symm
  widget v _ := (hwidget.bind_node? id v).symm

theorem setWidget (f : Forest W) (v : View) (widget : Option W) :
    Undisturbed [v] f (f.modify v fun node ↦ { node with widget }) := by
  have halike : Forest.Alike Node.links f (f.modify v fun node ↦ { node with widget }) :=
    .modify (fun _ ↦ by rfl) f v
  refine ⟨(Forest.Reaches.refl f).step (.setWidget f v widget), fun w ↦ (halike.contains w).symm,
    fun w ↦ (halike.superview? w).symm, fun w ↦ (halike.subviewsOf w).symm, fun w hw ↦ ?_⟩
  rw [Forest.widget?, Forest.node?_modify_of_ne (by simpa using hw), Forest.widget?]

end Undisturbed

namespace Routing

/-- Every receiver comes to an answer and leaves the views as they were. -/
def Calm (conduct : HandlingConduct W D A) : Prop :=
  ∀ widget handle, conduct widget = some handle →
    ∀ v e s, Forest.empty.Reaches s.forest → s.forest.contains v = true →
      ∃ answer t, handle v e s = .ok answer t ∧ Undisturbed [] s.forest t.forest

/-- Whether a view has a widget that receives events. -/
def handles (conduct : HandlingConduct W D A) (f : Forest W) (v : View) : Bool :=
  (f.widget? v).any fun widget ↦ (conduct widget).isSome

theorem contains_of_handles {conduct : HandlingConduct W D A} {f : Forest W} {v : View}
    (h : handles conduct f v = true) : f.contains v = true := by
  cases hnode : f.node? v with
  | none => simp [handles, Forest.widget?, hnode] at h
  | some node => exact Forest.contains_iff.mpr ⟨node, hnode⟩

/-! ## One view -/

/-- What a widget does with an event, which may be nothing. -/
def receive (conduct : HandlingConduct W D A) (widget : W) (v : View) (e : Event) :
    Pass (Desk W D A) (W × Event) :=
  match conduct widget with
  | some handle => handle v e
  | none => pure (widget, e)

def takeWidget (s : Desk W D A) (v : View) : Desk W D A :=
  { s with forest := s.forest.modify v fun node ↦ { node with widget := none } }

def putBack (s : Desk W D A) (v : View) (widget : W) : Desk W D A :=
  { s with forest := s.forest.modify v fun node ↦ { node with widget := some (node.widget.getD widget) } }

/-- A delivery takes the widget out, lets it receive the event, and puts it back. -/
theorem deliver_eq {conduct : HandlingConduct W D A} {s : Desk W D A} {v : View} {node : Node W}
    (hnode : s.forest.node? v = some node) (e : Event) :
    deliver conduct v e s = match node.widget with
      | none => .ok e s
      | some widget => match receive conduct widget v e (takeWidget s v) with
        | .ok answer t => .ok (e.amended answer.2) (putBack t v answer.1)
        | .error halt t => .error halt t := by
  have hupdate (change : Node W → Node W) : s.forest.update v change = .ok (s.forest.modify v change) :=
    Forest.update_eq_ok.mpr ⟨Forest.contains_iff.mpr ⟨node, hnode⟩, rfl⟩
  have hread : (Desk.onGrove (Grove.ask fun f ↦ f.read v) : Pass (Desk W D A) (Node W)) s = .ok node s := by
    rw [Desk.ask_eq, Forest.read_eq_ok.mpr hnode]
  have htake : (Desk.onGrove (Grove.change fun f ↦ f.update v fun node ↦ { node with widget := none }) :
      Pass (Desk W D A) Unit) s = .ok () (takeWidget s v) := by
    rw [Desk.change_eq, hupdate]
    rfl
  unfold deliver
  rw [Pass.bind_of_ok hread]
  cases hwidget : node.widget with
  | none => rfl
  | some widget =>
    unfold receive
    dsimp only
    rw [Pass.bind_of_ok htake]
    cases conduct widget with
    | none => rfl
    | some handle =>
      dsimp only
      cases hrun : handle v e (takeWidget s v) with
      | error halt t => rw [Pass.bind_of_error hrun]
      | ok answer t =>
        rw [Pass.bind_of_ok hrun]
        rfl

theorem undisturbed_putBack (s : Desk W D A) (v : View) (widget : W) :
    Undisturbed [v] s.forest (putBack s v widget).forest := by
  have hsame : (putBack s v widget).forest =
      s.forest.modify v fun node ↦ { node with widget := some ((s.forest.widget? v).getD widget) } :=
    Forest.modify_congr fun node hnode ↦ by simp [Forest.widget?, hnode]
  rw [hsame]
  exact .setWidget s.forest v _

/-- A delivery to a calm receiver leaves one receipt, and any other delivery leaves none. Other views keep
their widgets. -/
theorem deliver_recorded {conduct : HandlingConduct W D A} (hcalm : Calm conduct)
    {s : Desk W D (A × List Receipt)} {v : View} (hreach : Forest.empty.Reaches s.forest)
    (hlive : s.forest.contains v = true) (e : Event) :
    ∃ e' t log, deliver conduct.recorded v e s = .ok e' t ∧ t.receipts = s.receipts ++ log ∧
      Undisturbed [v] s.forest t.forest ∧
      if handles conduct s.forest v then ∃ answer, log = [⟨v, e, some answer⟩] ∧ e' = e.amended answer
      else log = [] ∧ e' = e := by
  obtain ⟨node, hnode⟩ := Forest.contains_iff.mp hlive
  rw [deliver_eq hnode]
  cases hwidget : node.widget with
  | none =>
    refine ⟨e, s, [], rfl, by simp, .refl _ _, ?_⟩
    simp [handles, Forest.widget?, hnode, hwidget]
  | some widget =>
    have htaken : Undisturbed [v] s.forest (takeWidget s v).forest := .setWidget s.forest v none
    cases hhandle : conduct widget with
    | none =>
      refine ⟨e.amended e, putBack (takeWidget s v) v widget, [], ?_, by simp; rfl,
        htaken.trans (undisturbed_putBack _ v widget), ?_⟩
      · simp only [receive, HandlingConduct.recorded_eq hhandle]
        rfl
      · simp [handles, Forest.widget?, hnode, hwidget, hhandle, Event.amended_self]
    | some handle =>
      obtain ⟨answer, t, hrun, hkept⟩ := hcalm widget handle hhandle v e (takeWidget s v).plain
        (hreach.trans htaken.reaches) ((htaken.contains v).trans hlive)
      let left := t.withReceipts (s.receipts ++ [⟨v, e, some answer.2⟩])
      have hreceive : receive conduct.recorded widget v e (takeWidget s v) = .ok answer left := by
        simp only [receive, HandlingConduct.recorded_eq hhandle, Option.map_some, leavingReceipt, hrun]
        rfl
      refine ⟨e.amended answer.2, putBack left v answer.1, [⟨v, e, some answer.2⟩], ?_, rfl, ?_, ?_⟩
      · simp only [hreceive]
      · have hleft : Undisturbed [v] (takeWidget s v).forest left.forest := hkept.mono (by simp)
        exact htaken.trans (hleft.trans (undisturbed_putBack left v answer.1))
      · have hhandles : handles conduct s.forest v = true := by
          simp [handles, Forest.widget?, hnode, hwidget, hhandle]
        rw [if_pos hhandles]
        exact ⟨answer.2, rfl, rfl⟩

end Routing

end RetainedUi
