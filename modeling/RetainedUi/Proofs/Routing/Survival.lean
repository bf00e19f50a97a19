import RetainedUi.Proofs.Routing.Delivery
import RetainedUi.Proofs.Routing.Passes

/-!
# Passes over dying views

Receivers may destroy views that a pass has still to do with: the view that is receiving, the target, the views
above them, leaves that were found before, the receivers of redirects. They may move views elsewhere and create
new ones in the slots that became free. A pass asks anew, after every receiver, whether a view is alive before it
touches it, so the pass itself never touches a dead one. It relies on one view only to stay alive, which is the
root that it asks for the leaves.

So a pass halts for reasons of its receivers, and where its bound is reached, but for no other reason.
-/

namespace RetainedUi.Routing

variable {W D A α : Type}

/-- A run comes to an answer with the root still alive, unless its bound is reached or it halts for one of the
reasons in question. -/
def Survives (P : Halt → Prop) (root : View) (f : Forest W) : EStateM.Result Halt (Desk W D A) α → Prop
  | .ok _ t => f.Reaches t.forest ∧ t.forest.contains root = true
  | .error halt _ => halt = .exhausted ∨ P halt

/-- Receivers keep the root alive. They may rely on a well-formed forest in which the root and their own view are
alive, and halt for none but the reasons in question. -/
def Mindful (P : Halt → Prop) (root : View) (conduct : HandlingConduct W D A) : Prop :=
  ∀ widget handle, conduct widget = some handle → ∀ v e s, s.forest.WellFormed → s.forest.contains root = true →
    s.forest.contains v = true → Survives P root s.forest (handle v e s)

namespace Survives

variable {P : Halt → Prop} {root : View} {f g : Forest W}

theorem done (answer : α) {s : Desk W D A} (hroot : s.forest.contains root = true) :
    Survives P root s.forest (.ok answer s) := ⟨.refl s.forest, hroot⟩

theorem exhausted (s : Desk W D A) :
    Survives P root f (.error .exhausted s : EStateM.Result Halt (Desk W D A) α) := .inl rfl

/-- A run goes on from a forest that was reached before. -/
theorem after {result : EStateM.Result Halt (Desk W D A) α} (hfg : f.Reaches g) (h : Survives P root g result) :
    Survives P root f result := by
  cases result with
  | ok answer t => exact ⟨hfg.trans h.1, h.2⟩
  | error halt t => exact h

/-- What follows a run may rely on what the run may rely on. -/
theorem goOn {β : Type} {first : EStateM.Result Halt (Desk W D A) β} (hfirst : Survives P root f first)
    (hf : f.WellFormed) {answer : β} {t : Desk W D A} (hrun : first = .ok answer t)
    {result : EStateM.Result Halt (Desk W D A) α}
    (hnext : t.forest.WellFormed → t.forest.contains root = true → Survives P root t.forest result) :
    Survives P root f result := by
  rw [hrun] at hfirst
  exact .after hfirst.1 (hnext (hfirst.1.wellFormed hf) hfirst.2)

/-- Nothing follows a run that halts. -/
theorem halts {β : Type} {first : EStateM.Result Halt (Desk W D A) β} (hfirst : Survives P root f first)
    {halt : Halt} {t : Desk W D A} (hrun : first = .error halt t) :
    Survives P root f (.error halt t : EStateM.Result Halt (Desk W D A) α) := by
  rw [hrun] at hfirst
  exact hfirst

end Survives

/-! ## The parts of a pass -/

section

variable {P : Halt → Prop} {root : View} {conduct : HandlingConduct W D A} (hmindful : Mindful P root conduct)
include hmindful

/-- A delivery touches its view while nobody has had a chance to destroy it, and puts the widget back only into a
view that is still there. -/
theorem deliver_survives {v : View} (e : Event) {s : Desk W D A} (hwell : s.forest.WellFormed)
    (hroot : s.forest.contains root = true) (hlive : s.forest.contains v = true) :
    Survives P root s.forest (deliver conduct v e s) := by
  obtain ⟨node, hnode⟩ := Forest.contains_iff.mp hlive
  rw [deliver_eq hnode]
  cases node.widget with
  | none => exact .done e hroot
  | some widget =>
    have htaken : Undisturbed [v] s.forest (takeWidget s v).forest := .setWidget s.forest v none
    have hroot' : (takeWidget s v).forest.contains root = true := (htaken.contains root).trans hroot
    have hlive' : (takeWidget s v).forest.contains v = true := (htaken.contains v).trans hlive
    have hreceive : Survives P root (takeWidget s v).forest (receive conduct widget v e (takeWidget s v)) := by
      unfold receive
      cases hhandle : conduct widget with
      | none => exact .done (widget, e) hroot'
      | some handle =>
        exact hmindful widget handle hhandle v e (takeWidget s v) (htaken.reaches.wellFormed hwell) hroot' hlive'
    refine .after htaken.reaches ?_
    dsimp only
    cases hrun : receive conduct widget v e (takeWidget s v) with
    | error halt t => exact hreceive.halts hrun
    | ok answer t =>
      refine hreceive.goOn (htaken.reaches.wellFormed hwell) hrun fun _ hroot ↦ ?_
      have hback := undisturbed_putBack t v answer.1
      exact ⟨hback.reaches, (hback.contains root).trans hroot⟩

/-- A walk looks whether a view is alive before it delivers to it. -/
theorem upwards_survives (steps : Nat) (start : Option View) (e : Event) (seen : List View) {s : Desk W D A}
    (hwell : s.forest.WellFormed) (hroot : s.forest.contains root = true) :
    Survives P root s.forest (upwards conduct steps start e seen s) := by
  induction steps generalizing start e seen s with
  | zero =>
    cases start with
    | none => exact .done (e, seen) hroot
    | some v => exact .exhausted s
  | succ steps ih =>
    cases start with
    | none => exact .done (e, seen) hroot
    | some v =>
      cases hgoes : e.propagating && s.forest.contains v with
      | false =>
        rw [upwards_of_ended _ _ hgoes]
        exact .done (e, seen) hroot
      | true =>
        obtain ⟨hgoes, hlive⟩ := Bool.and_eq_true_iff.mp hgoes
        rw [upwards_succ _ _ _ hgoes hlive]
        split
        · exact ih _ e seen hwell hroot
        · have hdeliver := deliver_survives hmindful e hwell hroot hlive
          cases hrun : deliver conduct v e s with
          | error halt t => exact hdeliver.halts hrun
          | ok e' t => exact hdeliver.goOn hwell hrun fun hwell hroot ↦ ih _ e' (v :: seen) hwell hroot

/-- The leaves were alive when the root was asked for them. Each is looked at again when its turn comes. -/
theorem broadcast_survives (steps : Nat) (leaves : List View) (e : Event) (seen : List View) {s : Desk W D A}
    (hwell : s.forest.WellFormed) (hroot : s.forest.contains root = true) :
    Survives P root s.forest (broadcast conduct steps leaves e seen s) := by
  induction leaves generalizing e seen s with
  | nil => exact .done e hroot
  | cons leaf rest ih =>
    have hwalk := upwards_survives hmindful steps (some leaf) e seen hwell hroot
    rw [broadcast_cons]
    cases hrun : upwards conduct steps (some leaf) e seen s with
    | error halt t => exact hwalk.halts hrun
    | ok answer t =>
      obtain ⟨e', seen'⟩ := answer
      refine hwalk.goOn hwell hrun fun hwell hroot ↦ ?_
      dsimp only
      split
      · exact ih e' seen' hwell hroot
      · exact .done e' hroot

theorem toTarget_survives (steps : Nat) (e : Event) {s : Desk W D A} (hwell : s.forest.WellFormed)
    (hroot : s.forest.contains root = true) : Survives P root s.forest (toTarget conduct steps e s) := by
  unfold toTarget
  cases e.target with
  | none => exact .done (e, []) hroot
  | some target =>
    dsimp only
    rw [Pass.bind_get]
    split
    · exact upwards_survives hmindful steps (some target) e [] hwell hroot
    · exact ⟨.refl s.forest, hroot⟩

theorem direct_survives (steps : Nat) (e : Event) {s : Desk W D A} (hwell : s.forest.WellFormed)
    (hroot : s.forest.contains root = true) : Survives P root s.forest (direct conduct steps e s) := by
  rw [direct_eq]
  cases s.redirects.find? e.kind with
  | none => exact toTarget_survives hmindful steps e hwell hroot
  | some redirect =>
    dsimp only
    split
    · exact upwards_survives hmindful steps (some redirect.view) e e.target.toList hwell hroot
    · exact toTarget_survives hmindful steps e (s := s.forgoing e.kind redirect) hwell hroot

/-- The root is alive when it is asked for its leaves. -/
theorem dispatchEvent_survives (steps : Nat) (e : Event) {s : Desk W D A} (hwell : s.forest.WellFormed)
    (hroot : s.forest.contains root = true) : Survives P root s.forest (dispatchEvent conduct steps root e s) := by
  have hfirst := direct_survives hmindful steps e hwell hroot
  rw [dispatchEvent_eq]
  cases hrun : direct conduct steps e s with
  | error halt t => exact hfirst.halts hrun
  | ok answer t =>
    obtain ⟨e', seen⟩ := answer
    refine hfirst.goOn hwell hrun fun hwell hroot ↦ ?_
    dsimp only
    split
    · obtain ⟨leaves, f, hleaves⟩ := hwell.exists_leafViews hroot
      have hstep := (Forest.Reaches.refl t.forest).step (.leafViews hleaves)
      have halike : Forest.Alike Node.links t.forest f := (Forest.alike_of_leafViews hleaves).map Node.links
      simp only [hleaves]
      exact .after hstep (broadcast_survives hmindful steps (leaves.map (·.view)) e' seen
        (s := { t with forest := f }) (hstep.wellFormed hwell) ((halike.contains root).symm.trans hroot))
    · exact .done e' hroot

theorem drain_survives (steps events : Nat) {s : Desk W D A} (hwell : s.forest.WellFormed)
    (hroot : s.forest.contains root = true) : Survives P root s.forest (drain conduct steps root events s) := by
  induction events generalizing s with
  | zero =>
    rw [drain_zero]
    split
    · exact .done [] hroot
    · exact .exhausted s
  | succ events ih =>
    rw [drain_succ]
    cases s.queue with
    | nil => exact .done [] hroot
    | cons e rest =>
      have hround := dispatchEvent_survives hmindful steps e (s := { s with queue := rest }) hwell hroot
      dsimp only
      cases hrun : dispatchEvent conduct steps root e { s with queue := rest } with
      | error halt t => exact hround.halts hrun
      | ok e' t =>
        refine hround.goOn hwell hrun fun hwell hroot ↦ ?_
        have hrest := ih hwell hroot
        dsimp only
        cases hlater : drain conduct steps root events t with
        | error halt u => exact hrest.halts hlater
        | ok done u => exact hrest.goOn hwell hlater fun _ hroot ↦ .done _ hroot

/-- A pass over a well-formed forest with a live root ends with the queue empty and the root alive, whatever mindful
receivers do to all other views, unless the bound is reached or a receiver halts. The pass itself has no reason to
halt, since it touches no dead view. -/
theorem dispatch_survives (steps : Nat) {s : Desk W D A} (hwell : s.forest.WellFormed)
    (hroot : s.forest.contains root = true) :
    match dispatch conduct steps root s with
    | .ok _ t => s.forest.Reaches t.forest ∧ t.forest.contains root = true ∧ t.queue = []
    | .error halt _ => halt = .exhausted ∨ P halt := by
  have hdrain := drain_survives hmindful steps steps (s := s.pruned) hwell hroot
  rw [dispatch_eq]
  cases hrun : drain conduct steps root steps s.pruned with
  | error halt t =>
    rw [hrun] at hdrain
    exact hdrain
  | ok done t =>
    rw [hrun] at hdrain
    exact ⟨hdrain.1, hdrain.2, queue_of_drain_eq_ok conduct steps root hrun⟩

end

/-! ## Receivers that destroy views -/

/-- The forest after a view is destroyed, or the one above it in the case of the third view, and a new one is
created. Whatever would cost the first view its life is not done. -/
def razed (f : Forest Unit) (v : View) : Forest Unit :=
  match f.destroy (if v = ⟨3⟩ then ⟨2⟩ else v) with
  | .ok g => if (g.create .zero).2.contains ⟨1⟩ then (g.create .zero).2 else f
  | .error _ => f

def razing : HandlingConduct Unit Unit Unit := fun _ ↦ some fun v e s ↦
  .ok ((), e) { s with forest := razed s.forest v }

theorem mindful_razing : Mindful (fun _ ↦ False) ⟨1⟩ razing := by
  rintro _ _ ⟨⟩ v e s - hroot -
  change s.forest.Reaches (razed s.forest v) ∧ (razed s.forest v).contains ⟨1⟩ = true
  unfold razed
  split
  case h_1 g hdestroy =>
    split
    case isTrue hkept =>
      exact ⟨((Forest.Reaches.refl s.forest).step (.destroy hdestroy)).step (.create g .zero), hkept⟩
    case isFalse => exact ⟨.refl s.forest, hroot⟩
  case h_2 => exact ⟨.refl s.forest, hroot⟩

/-- A window and three views that belong nowhere. -/
def apart : Forest Unit :=
  ((((Forest.empty.createWindow .zero).2.create .zero).2.create .zero).2.create .zero).2

/-- A window with a view that has a subview, and with another view. -/
def standing : Forest Unit :=
  (((apart.added ⟨1⟩ ⟨2⟩).added ⟨2⟩ ⟨3⟩).added ⟨1⟩ ⟨4⟩).equipped () [⟨1⟩, ⟨2⟩, ⟨3⟩, ⟨4⟩]

theorem reaches_standing : Forest.empty.Reaches standing := by
  have hapart : Forest.empty.Reaches apart :=
    ((((Forest.Reaches.refl Forest.empty).step (.createWindow _ .zero)).step (.create _ .zero)).step
      (.create _ .zero)).step (.create _ .zero)
  exact (((hapart.added _ _).added _ _).added _ _).equipped () _

/-- The target of an event destroys its superview, and itself with it, and a new view gets its slot. Then a leaf
destroys itself, and another view gets that slot. The pass ends with the window alive. -/
theorem dispatch_survives_razing : ∃ (s t : Desk Unit Unit Unit) (e : Event) (done : List Event),
    s.forest = standing ∧ s.queue = [e] ∧ e.target = some ⟨3⟩ ∧
      [⟨2⟩, ⟨3⟩, ⟨4⟩].map s.forest.serial? = [some 2, some 3, some 4] ∧
      dispatch razing 9 ⟨1⟩ s = .ok done t ∧ t.forest.contains ⟨1⟩ = true ∧ t.queue = [] ∧
      [⟨2⟩, ⟨3⟩, ⟨4⟩].map t.forest.serial? = [none, some 5, some 6] := by
  let e : Event := (Event.closeRequest none).withTarget ⟨3⟩
  let s : Desk Unit Unit Unit :=
    { forest := standing, queue := [e], redirects := .empty, deferred := [], ambient := ⟨#[], ()⟩ }
  have hforest : s.forest = standing := rfl
  have hwell : s.forest.WellFormed := hforest ▸ Forest.reachable_wellFormed reaches_standing
  have hroot : s.forest.contains ⟨1⟩ = true := by decide +kernel
  have hserials : (match dispatch razing 9 ⟨1⟩ s with
      | .ok _ t => [⟨2⟩, ⟨3⟩, ⟨4⟩].map t.forest.serial?
      | .error _ _ => []) = [none, some 5, some 6] := by decide +kernel
  have hbefore : [⟨2⟩, ⟨3⟩, ⟨4⟩].map s.forest.serial? = [some 2, some 3, some 4] := by decide +kernel
  have hqueue : s.queue = [e] := rfl
  clear_value s
  have hsurvives := dispatch_survives mindful_razing 9 hwell hroot
  cases hrun : dispatch razing 9 ⟨1⟩ s with
  | error halt t =>
    rw [hrun] at hserials
    cases hserials
  | ok done t =>
    rw [hrun] at hserials hsurvives
    exact ⟨s, t, e, done, hforest, hqueue, rfl, hbefore, hrun, hsurvives.2.1, hsurvives.2.2, hserials⟩

end RetainedUi.Routing
