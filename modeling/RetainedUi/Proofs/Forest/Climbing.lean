import RetainedUi.Proofs.Forest.Invariant

/-!
# How far a request to paint climbs

A region that is to be painted again goes up from its view. In every view that it comes to it is clipped to the bounds
and added to what is pending there, and what is left of it is passed on in the coordinates of the superview. The walk
ends where nothing is left, or at the root. So the root learns of every region that shows on the whole way, and the
views beyond the end of the walk learn nothing.

What is pending in a view stays until it is taken. An operation may add to it, but only to take it and to draw the view
make the view clean, and a new view is not clean from its start.
-/

namespace RetainedUi.Forest

variable {W A : Type} {f g h : Forest W} {v w : View} {node : Node W} {region : Option Rect}

/-- What a region comes to in the views of a chain upwards. In each of them it is clipped to the bounds, and what is
left is passed on in the coordinates of the next one. -/
def shares (f : Forest W) : List View → Option Rect → List (View × Rect)
  | [], _ => []
  | v :: above, region =>
    match f.node? v with
    | none => []
    | some node =>
      let part := (region.getD node.bounds).intersection node.bounds
      (v, part) :: f.shares above (some (part.translated node.frame.origin))

/-- The shares up to the first empty one, which is the last that a request passes on. -/
def reached : List (View × Rect) → List (View × Rect)
  | [] => []
  | share :: above => if share.2.isEmpty then [share] else share :: reached above

/-- Views get shares of a region added to what they have pending. -/
def soiled (f : Forest W) (shares : List (View × Rect)) : Forest W :=
  shares.foldl (fun f share ↦ f.modify share.1 fun node ↦
    { node with invalidated := some (merged node.invalidated share.2) }) f

/-! ## The shares of a region -/

theorem shares_congr (h : Alike Node.frame f g) (chain : List View) (region : Option Rect) :
    g.shares chain region = f.shares chain region := by
  induction chain generalizing region with
  | nil => rfl
  | cons v above ih =>
    unfold shares
    cases hnode : f.node? v with
    | none =>
      have hdead : g.node? v = none := by simpa [hnode] using (h.node? v).symm
      rw [hdead]
    | some node =>
      obtain ⟨other, hother, hframe⟩ := h.exists_node? hnode
      rw [hother]
      simp only [Node.bounds, hframe, ih]

/-- Every view of a chain has a share. -/
theorem Ascends.map_shares {start : Option View} {chain : List View} (hchain : f.Ascends start chain)
    (region : Option Rect) : (f.shares chain region).map Prod.fst = chain := by
  induction hchain generalizing region with
  | done => rfl
  | step hnode _ ih =>
    simp only [shares, hnode, List.map_cons, ih]

/-- A request comes to an unbroken run of views. All shares but the last one are not empty, and the last one is, or it
is the share of the root. -/
theorem reached_cases {shares : List (View × Rect)} (hne : shares ≠ []) :
    ∃ run last rest, shares = run ++ last :: rest ∧ reached shares = run ++ [last] ∧
      (∀ share ∈ run, share.2.isEmpty = false) ∧ (last.2.isEmpty = true ∨ rest = []) := by
  induction shares with
  | nil => exact (hne rfl).elim
  | cons share above ih =>
    cases hempty : share.2.isEmpty with
    | true => exact ⟨[], share, above, rfl, by rw [reached, if_pos hempty]; rfl, by simp, .inl hempty⟩
    | false =>
      have hpass : reached (share :: above) = share :: reached above := by rw [reached, if_neg (by simp [hempty])]
      cases above with
      | nil => exact ⟨[], share, [], rfl, hpass, by simp, .inr rfl⟩
      | cons next above =>
        obtain ⟨run, last, rest, hshares, hreached, hshow, hend⟩ := ih (List.cons_ne_nil next above)
        refine ⟨share :: run, last, rest, by rw [hshares]; rfl, by rw [hpass, hreached]; rfl, ?_, hend⟩
        exact List.forall_mem_cons.mpr ⟨hempty, hshow⟩

theorem reached_sublist (shares : List (View × Rect)) : (reached shares).Sublist shares := by
  induction shares with
  | nil => exact .slnil
  | cons share above ih =>
    unfold reached
    split
    · exact List.singleton_sublist.mpr List.mem_cons_self
    · exact ih.cons_cons share

/-- A region that shows on the whole way is passed on to the end of the chain. -/
theorem reached_of_shows {shares : List (View × Rect)} (hshow : ∀ share ∈ shares, share.2.isEmpty = false) :
    reached shares = shares := by
  induction shares with
  | nil => rfl
  | cons share above ih =>
    rw [List.forall_mem_cons] at hshow
    rw [reached, if_neg (by simp [hshow.1]), ih hshow.2]

/-! ## What the shares leave behind -/

theorem alike_soiled (f : Forest W) (shares : List (View × Rect)) : Alike Node.withoutRegion f (f.soiled shares) :=
  .foldl (fun f share ↦ .modify (fun _ ↦ by rfl) f share.1) shares f

theorem scaleFactor_soiled (f : Forest W) (shares : List (View × Rect)) :
    (f.soiled shares).scaleFactor = f.scaleFactor := by
  induction shares generalizing f with
  | nil => rfl
  | cons share above ih => exact (ih _).trans (scaleFactor_modify f share.1 _)

theorem node?_soiled_of_notMem {shares : List (View × Rect)} (hw : w ∉ shares.map Prod.fst) :
    (f.soiled shares).node? w = f.node? w := by
  induction shares generalizing f with
  | nil => rfl
  | cons share above ih =>
    obtain ⟨hne, hout⟩ := List.ne_and_not_mem_of_not_mem_cons hw
    exact (ih hout).trans (node?_modify_of_ne hne f _)

/-- A view with one share has what was pending merged with it. -/
theorem pending?_soiled {shares : List (View × Rect)} (hnodup : (shares.map Prod.fst).Nodup) {part : Rect}
    (hshare : (v, part) ∈ shares) (hnode : f.node? v = some node) :
    (f.soiled shares).pending? v = some (merged node.invalidated part) := by
  induction shares generalizing f with
  | nil => cases hshare
  | cons share above ih =>
    obtain ⟨hfirst, hnodup⟩ := List.nodup_cons.mp hnodup
    rcases List.mem_cons.mp hshare with rfl | hshare
    · change ((f.modify v _).soiled above).pending? v = _
      rw [pending?, node?_soiled_of_notMem hfirst, node?_modify_self hnode]
      rfl
    · have hne : v ≠ share.1 := fun heq ↦ hfirst (heq ▸ List.mem_map_of_mem (f := Prod.fst) hshare)
      exact ih hnodup hshare ((node?_modify_of_ne hne f _).trans hnode)

/-! ## The walk -/

/-- The walk adds to the views that it comes to what each of them has a share of, if it may take that many steps. -/
theorem Ascends.invalidateUp_eq {chain : List View} (hchain : f.Ascends (some v) chain) (steps : Nat)
    (region : Option Rect) : invalidateUp steps f v region =
      if (reached (f.shares chain region)).length ≤ steps then .ok (f.soiled (reached (f.shares chain region)))
      else .error .exhausted := by
  induction steps generalizing f v chain region with
  | zero =>
    cases hchain with
    | step hnode _ =>
      simp only [shares, hnode, reached]
      split <;> rfl
  | succ steps ih =>
    cases hchain with
    | @step _ node above hnode habove =>
      simp only [invalidateUp, read_eq_ok.mpr hnode, bind, Except.bind, shares, hnode, reached]
      split
      · rw [if_pos (by simp)]
        rfl
      · cases hup : node.superview with
        | none =>
          rw [hup] at habove
          cases habove
          rw [if_pos (by simp [shares, reached])]
          rfl
        | some p =>
          rw [hup] at habove
          change invalidateUp steps _ p _ = _
          rw [ih (habove.congr (.modify (fun _ ↦ by rfl) f v)), shares_congr (.modify (fun _ ↦ by rfl) f v)]
          simp only [List.length_cons, Nat.add_le_add_iff_right]
          rfl

section

variable {chain : List View} (hchain : f.Ascends (some v) chain)
include hchain

theorem Ascends.views_reached_subset (region : Option Rect) :
    (reached (f.shares chain region)).map Prod.fst ⊆ chain := by
  have hviews := ((reached_sublist (f.shares chain region)).map Prod.fst).subset
  rwa [hchain.map_shares] at hviews

theorem Ascends.nodup_views_reached (hf : f.WellFormed) (region : Option Rect) :
    ((reached (f.shares chain region)).map Prod.fst).Nodup := by
  have hnodup := hchain.map_shares region ▸ hchain.nodup hf
  exact hnodup.sublist ((reached_sublist _).map Prod.fst)

/-- In a well-formed forest the walk has steps enough. -/
theorem Ascends.invalidate_eq (hf : f.WellFormed) (region : Option Rect) :
    f.invalidate v region = .ok (f.soiled (reached (f.shares chain region))) := by
  have hlength := length_le_size_slots (hchain.nodup hf) hchain.contains
  rw [← hchain.map_shares region, List.length_map] at hlength
  rw [invalidate, hchain.invalidateUp_eq, if_pos ((reached_sublist _).length_le.trans hlength)]

/-- Painting again what shows of a view does nothing to views that are not above it. -/
theorem Ascends.node?_invalidateUp {steps : Nat} (hrun : invalidateUp steps f v region = .ok g) (hw : w ∉ chain) :
    g.node? w = f.node? w := by
  rw [hchain.invalidateUp_eq] at hrun
  split at hrun
  · cases hrun
    exact node?_soiled_of_notMem fun hmem ↦ hw (hchain.views_reached_subset region hmem)
  · cases hrun

end

/-- What a view has pending after a region of it is to be painted again. -/
theorem WellFormed.pending?_invalidate (hf : f.WellFormed) (hnode : f.node? v = some node)
    (h : f.invalidate v region = .ok g) :
    g.pending? v = some (merged node.invalidated ((region.getD node.bounds).intersection node.bounds)) := by
  obtain ⟨chain, hchain⟩ := hf.exists_ascends (contains_iff.mpr ⟨node, hnode⟩)
  rw [hchain.invalidate_eq hf] at h
  cases h
  refine pending?_soiled (hchain.nodup_views_reached hf region) ?_ hnode
  cases hchain with
  | @step _ other above hother _ =>
    obtain rfl : node = other := Option.some.inj (hnode.symm.trans hother)
    simp only [shares, hnode, reached]
    split <;> exact List.mem_cons_self

/-- A request does nothing to a view that is not at or above the view of the request. -/
theorem WellFormed.node?_invalidate (hf : f.WellFormed) (hv : f.contains v = true)
    (h : f.invalidate v region = .ok g) (hw : ¬ f.InFamily w v) : g.node? w = f.node? w := by
  obtain ⟨chain, hchain⟩ := hf.exists_ascends hv
  refine hchain.node?_invalidateUp h fun hmem ↦ hw ?_
  simpa using (hchain.mem_iff w).mp hmem

/-! ## What stays pending -/

/-- A view that is clean in the second forest is a view of the first one, and was clean there. -/
def KeepsPending (f g : Forest W) : Prop :=
  ∀ w node, g.node? w = some node → node.invalidated = none →
    ∃ old, f.node? w = some old ∧ old.serial = node.serial ∧ old.invalidated = none

instance : IsPreorder (Forest W) KeepsPending where
  refl _ _ node hnode hclean := ⟨node, hnode, rfl, hclean⟩
  trans f g h hfg hgh w node hnode hclean := by
    obtain ⟨mid, hmid, hserial, hclean⟩ := hgh w node hnode hclean
    obtain ⟨old, hold, hserial', hclean⟩ := hfg w mid hmid hclean
    exact ⟨old, hold, hserial'.trans hserial, hclean⟩

namespace KeepsPending

theorem refl (f : Forest W) : KeepsPending f f := refl_of KeepsPending f

theorem trans (hfg : KeepsPending f g) (hgh : KeepsPending g h) : KeepsPending f h := trans_of KeepsPending hfg hgh

theorem of_alike (h : Alike Node.due f g) : KeepsPending f g := by
  intro w node hnode hclean
  obtain ⟨old, hold, hdue⟩ := h.symm.exists_node? hnode
  exact ⟨old, hold, congrArg Prod.fst hdue, (congrArg Prod.snd hdue).trans hclean⟩

/-- Where views are only taken away, all others are as they were. -/
theorem of_fewer (hfewer : ∀ w node, g.node? w = some node → f.node? w = some node) : KeepsPending f g :=
  fun w node hnode hclean ↦ ⟨node, hfewer w node hnode, rfl, hclean⟩

/-! ### Operations -/

theorem merge (f : Forest W) (v : View) (clipped : Rect) : KeepsPending f (f.modify v fun node ↦
    { node with invalidated := some (merged node.invalidated clipped) }) := by
  intro w node hnode hclean
  rw [node?_modify] at hnode
  split at hnode
  · obtain ⟨old, -, rfl⟩ := Option.map_eq_some_iff.mp hnode
    cases hclean
  · exact ⟨node, hnode, rfl, hclean⟩

theorem invalidateUp {steps : Nat} (h : invalidateUp steps f v region = .ok g) : KeepsPending f g := by
  induction steps generalizing f v region with
  | zero => cases h
  | succ steps ih =>
    simp only [Forest.invalidateUp, bind_eq_ok] at h
    obtain ⟨node, -, h⟩ := h
    have hmerged := merge f v ((region.getD node.bounds).intersection node.bounds)
    split at h
    · cases h
      exact hmerged
    · cases hup : node.superview with
      | none =>
        rw [hup] at h
        cases h
        exact hmerged
      | some above =>
        rw [hup] at h
        exact hmerged.trans (ih h)

theorem invalidate (h : f.invalidate v region = .ok g) : KeepsPending f g := invalidateUp h

theorem requestLayout (h : f.requestLayout v = .ok g) : KeepsPending f g :=
  .of_alike ((alike_of_requestLayout h).map Node.due)

theorem setFrame {frame : Rect} (h : f.setFrame v frame = .ok g) : KeepsPending f g := by
  simp only [setFrame_eq, bind_eq_ok, read_eq_ok] at h
  obtain ⟨node, -, h⟩ := h
  split at h
  · cases h
    exact .refl f
  · obtain ⟨sized, hsized, shown, hshown, h⟩ := by simpa only [bind_eq_ok] using h
    have hmoved : KeepsPending f (f.modify v fun node ↦ { node with frame }) :=
      .of_alike (.modify (fun _ ↦ by rfl) f v)
    have hresized : KeepsPending f sized := by
      cases hsame : node.frame.size == frame.size with
      | true =>
        rw [hsame, cond_true, Except.ok.injEq] at hsized
        exact hsized ▸ hmoved
      | false =>
        rw [hsame, cond_false] at hsized
        exact hmoved.trans (.requestLayout hsized)
    have hpainted : KeepsPending sized shown := by
      cases hup : node.superview with
      | none =>
        rw [hup, Option.elim_none, Except.ok.injEq] at hshown
        exact hshown ▸ .refl sized
      | some above =>
        rw [hup, Option.elim_some] at hshown
        exact .invalidate hshown
    exact hresized.trans (hpainted.trans (.invalidate h))

theorem relinked {parent child : View} {frame : Rect} (h : f.relinked parent child frame = .ok g) :
    KeepsPending f g := by
  simp only [Forest.relinked, bind_eq_ok] at h
  obtain ⟨cleared, hcleared, unknown, hunknown, painted, hpainted, h⟩ := h
  have hleaves : KeepsPending f cleared := .of_alike ((alike_of_clearLeafCaches hcleared).map Node.due)
  have hancestors : KeepsPending cleared unknown := .of_alike ((alike_of_clearAncestorCaches hunknown).map Node.due)
  exact hleaves.trans (hancestors.trans ((invalidate hpainted).trans (.requestLayout h)))

theorem addView {parent child : View} (h : f.addView parent child = .ok (.ok g)) : KeepsPending f g := by
  obtain ⟨-, node, -, -, -, -, -, hrelinked⟩ := addView_cases h
  have hlinked : KeepsPending f (f.link parent child) :=
    .of_alike ((Alike.modify (fun _ ↦ by rfl) f child).trans (.modify (fun _ ↦ by rfl) _ parent))
  exact hlinked.trans (.relinked hrelinked)

theorem removeFromSuperview (h : f.removeFromSuperview v = .ok g) : KeepsPending f g := by
  obtain ⟨node, -, ⟨-, rfl⟩ | ⟨parent, -, hrelinked⟩⟩ := removeFromSuperview_cases h
  · exact .refl _
  · have hunlinked : KeepsPending f (f.unlink parent v) :=
      .of_alike ((Alike.modify (fun _ ↦ by rfl) f v).trans (.modify (fun _ ↦ by rfl) _ parent))
    exact hunlinked.trans (.relinked hrelinked)

theorem destroy (hf : f.WellFormed) (h : f.destroy v = .ok g) : KeepsPending f g := by
  obtain ⟨-, rfl⟩ | ⟨mid, freed, hmid, -, -, hfreed, -⟩ := destroy_eq_ok hf h
  · exact .refl _
  · refine (removeFromSuperview hmid).trans (.of_fewer fun w node hnode ↦ ?_)
    rw [hfreed.node?] at hnode
    split at hnode
    · cases hnode
    · exact hnode

theorem reshapes (hf : f.WellFormed) (h : Reshapes f g) : KeepsPending f g := by
  cases h with
  | rearrange => exact .of_fewer fun _ _ hnode ↦ hnode
  | grow => exact .of_fewer fun w node hnode ↦ node?_grow f w ▸ hnode
  | insert frame role =>
    -- A new view is to be painted as a whole.
    intro w node hnode hclean
    rw [node?_insert hf] at hnode
    split at hnode
    · cases hnode
      cases hclean
    · exact ⟨node, hnode, rfl, hclean⟩
  | addView h => exact .addView h
  | removeFromSuperview h => exact .removeFromSuperview h
  | destroy h => exact .destroy hf h

end KeepsPending

/-! ## Runs -/

/-- A single operation other than to take what is pending in a view. -/
inductive Accrues : Forest W → Forest W → Prop where
  | reshapes {f g : Forest W} (h : Reshapes f g) : Accrues f g
  | setFrame {f g : Forest W} {v : View} {frame : Rect} (h : f.setFrame v frame = .ok g) : Accrues f g
  | setTag {f g : Forest W} {v : View} {tag : Option String} (h : f.setTag v tag = .ok g) : Accrues f g
  | setWidget (f : Forest W) (v : View) (widget : Option W) : Accrues f (f.modify v fun node ↦ { node with widget })
  | invalidate {f g : Forest W} {v : View} {region : Option Rect} (h : f.invalidate v region = .ok g) : Accrues f g
  | requestLayout {f g : Forest W} {v : View} (h : f.requestLayout v = .ok g) : Accrues f g
  | unmark (f : Forest W) (v : View) : Accrues f (f.modify v fun node ↦ { node with needsLayout := false })
  | leafViews {f g : Forest W} {v : View} {leaves : List Placed} (h : f.leafViews v = .ok (leaves, g)) : Accrues f g
  | windowOf {f g : Forest W} {v window : View} (h : f.windowOf v = .ok (window, g)) : Accrues f g
  | rootOf {f g : Forest W} {v root : View} (h : f.rootOf v = .ok (root, g)) : Accrues f g
  | setScaleFactor (f : Forest W) (scaleFactor : Float32) : Accrues f { f with scaleFactor }

/-- The second forest comes from the first one by operations and passes of layout, whatever the widgets do. Nowhere is
anything pending taken, and nothing is drawn. -/
inductive AccruingRun : Forest W → Forest W → Prop where
  | refl (f : Forest W) : AccruingRun f f
  | step {f g h : Forest W} (hfg : AccruingRun f g) (hgh : Accrues g h) : AccruingRun f h
  | settle {A : Type} {f : Forest W} {conduct : LayoutConduct W A}
      (hconduct : ∀ widget layout, conduct widget = some layout →
        ∀ v s, AccruingRun s.forest (Pass.final (layout v s)).forest)
      (depth : Nat) (forced : Bool) (v : View) (s : Grove W A) (hfs : AccruingRun f s.forest) :
      AccruingRun f (Pass.final (settle conduct depth forced v s)).forest

theorem Reshapes.step (h : Reshapes f g) : Step f g := by
  cases h with
  | rearrange hperm => exact .rearrange f hperm
  | grow => exact .grow f
  | insert frame role =>
    cases role with
    | plain => exact .create f frame
    | window => exact .createWindow f frame
  | addView h => exact .addView h
  | removeFromSuperview h => exact .removeFromSuperview h
  | destroy h => exact .destroy h

/-- All other operations take what is pending. -/
theorem Step.accrues_or_takeInvalidated (h : Step f g) :
    Accrues f g ∨ ∃ v region, f.takeInvalidated v = .ok (region, g) := by
  cases h with
  | rearrange hperm => exact .inl (.reshapes (.rearrange f hperm))
  | grow => exact .inl (.reshapes (.grow f))
  | create frame => exact .inl (.reshapes (.insert f frame .plain))
  | createWindow frame => exact .inl (.reshapes (.insert f frame .window))
  | addView h => exact .inl (.reshapes (.addView h))
  | removeFromSuperview h => exact .inl (.reshapes (.removeFromSuperview h))
  | destroy h => exact .inl (.reshapes (.destroy h))
  | setFrame h => exact .inl (.setFrame h)
  | setTag h => exact .inl (.setTag h)
  | setWidget v widget => exact .inl (.setWidget f v widget)
  | invalidate h => exact .inl (.invalidate h)
  | takeInvalidated h => exact .inr ⟨_, _, h⟩
  | requestLayout h => exact .inl (.requestLayout h)
  | unmark v => exact .inl (.unmark f v)
  | leafViews h => exact .inl (.leafViews h)
  | windowOf h => exact .inl (.windowOf h)
  | rootOf h => exact .inl (.rootOf h)
  | setScaleFactor scaleFactor => exact .inl (.setScaleFactor f scaleFactor)

namespace Accrues

theorem step (h : Accrues f g) : Step f g := by
  cases h with
  | reshapes h => exact h.step
  | setFrame h => exact .setFrame h
  | setTag h => exact .setTag h
  | setWidget v widget => exact .setWidget f v widget
  | invalidate h => exact .invalidate h
  | requestLayout h => exact .requestLayout h
  | unmark v => exact .unmark f v
  | leafViews h => exact .leafViews h
  | windowOf h => exact .windowOf h
  | rootOf h => exact .rootOf h
  | setScaleFactor scaleFactor => exact .setScaleFactor f scaleFactor

theorem keepsPending (h : Accrues f g) (hf : f.WellFormed) : KeepsPending f g := by
  cases h with
  | reshapes h => exact .reshapes hf h
  | setFrame h => exact .setFrame h
  | setTag h => exact .of_alike (.update (fun _ ↦ by rfl) h)
  | setWidget v widget => exact .of_alike (.modify (fun _ ↦ by rfl) f v)
  | invalidate h => exact .invalidate h
  | requestLayout h => exact .requestLayout h
  | unmark v => exact .of_alike (.modify (fun _ ↦ by rfl) f v)
  | leafViews h => exact .of_alike ((alike_of_leafViews h).map Node.due)
  | windowOf h => exact .of_alike ((alike_of_windowOf h).map Node.due)
  | rootOf h => exact .of_alike ((alike_of_rootOf h).map Node.due)
  | setScaleFactor => exact .of_alike ⟨rfl, rfl, rfl⟩

end Accrues

namespace AccruingRun

/-- A run is a sequence of operations. -/
theorem steps (h : AccruingRun f g) : Relation.ReflTransGen Accrues f g := by
  have hlays (f g : Forest W) (h : Lays f g) : Relation.ReflTransGen Accrues f g := by
    cases h with
    | setWidget v widget => exact .single (.setWidget f v widget)
    | unmark v => exact .single (.unmark f v)
  induction h with
  | refl => exact .refl
  | step _ hstep ih => exact ih.tail hstep
  | settle _ depth forced v s _ hconduct ih => exact ih.trans (carries_settle hlays hconduct depth forced v s)

theorem keepsPending (h : AccruingRun f g) (hf : f.WellFormed) : KeepsPending f g := by
  replace h := h.steps
  have hboth : g.WellFormed ∧ KeepsPending f g := by
    induction h with
    | refl => exact ⟨hf, .refl f⟩
    | tail _ hstep ih => exact ⟨hstep.step.wellFormed ih.1, ih.2.trans (hstep.keepsPending ih.1)⟩
  exact hboth.2

end AccruingRun

/-- A request to paint a region of a view comes to an unbroken run of views, from the view itself upwards: to the first
one in which nothing of the region is left, or to the root. Each of them has its share of the region merged with what
was pending there. Nothing else is changed, and the request takes as many steps as there are views in the run.

In a run of operations that takes nothing pending and draws nothing, no view becomes clean. Such a run may contain
all operations but the one that takes what is pending. -/
theorem invalidate_climbs (hf : f.WellFormed) :
    (∀ v region, f.contains v = true → ∃ g chain run last rest,
      f.invalidate v region = .ok g ∧ f.lineage v = .ok chain ∧ (f.shares chain region).map Prod.fst = chain ∧
        f.shares chain region = run ++ last :: rest ∧ (∀ share ∈ run, share.2.isEmpty = false) ∧
          (last.2.isEmpty = true ∨ rest = []) ∧
      (∀ share ∈ run ++ [last], ∃ node, f.node? share.1 = some node ∧
        g.pending? share.1 = some (merged node.invalidated share.2)) ∧
      (∀ w ∉ (run ++ [last]).map Prod.fst, g.node? w = f.node? w) ∧
      Alike Node.withoutRegion f g ∧ g.scaleFactor = f.scaleFactor ∧
      ((∀ share ∈ f.shares chain region, share.2.isEmpty = false) →
        ∀ w ∈ chain, (g.pending? w).isSome = true) ∧
      ∀ steps, (∃ h, invalidateUp steps f v region = .ok h) ↔ (run ++ [last]).length ≤ steps) ∧
    (∀ g, AccruingRun f g → ∀ w node, g.node? w = some node → node.invalidated = none →
      ∃ old, f.node? w = some old ∧ old.serial = node.serial ∧ old.invalidated = none) ∧
    ∀ g h : Forest W, Step g h → Accrues g h ∨ ∃ v region, g.takeInvalidated v = .ok (region, h) := by
  refine ⟨fun v region hv ↦ ?_, fun g hrun ↦ hrun.keepsPending hf, fun g h ↦ Step.accrues_or_takeInvalidated⟩
  obtain ⟨chain, hchain⟩ := hf.exists_ascends hv
  have hviews := hchain.map_shares region
  have hne : f.shares chain region ≠ [] := by
    intro hnil
    rw [hnil] at hviews
    subst hviews
    cases hchain
  obtain ⟨run, last, rest, hshares, hreached, hshow, hend⟩ := reached_cases hne
  have hnodup := hchain.nodup_views_reached hf region
  have hlive := hchain.views_reached_subset region
  have hsteps (steps : Nat) := hchain.invalidateUp_eq steps region
  rw [hreached] at hnodup hlive hsteps
  have hpending (share : View × Rect) (hshare : share ∈ run ++ [last]) : ∃ node, f.node? share.1 = some node ∧
      (f.soiled (run ++ [last])).pending? share.1 = some (merged node.invalidated share.2) := by
    obtain ⟨node, hnode⟩ :=
      contains_iff.mp (hchain.contains _ (hlive (List.mem_map_of_mem (f := Prod.fst) hshare)))
    exact ⟨node, hnode, pending?_soiled hnodup hshare hnode⟩
  refine ⟨_, chain, run, last, rest, hreached ▸ hchain.invalidate_eq hf region, hf.lineage_eq_ok_iff.mpr hchain, hviews,
    hshares, hshow, hend, hpending, fun w hw ↦ node?_soiled_of_notMem hw, alike_soiled _ _, scaleFactor_soiled _ _,
    ?_, fun steps ↦ ?_⟩
  · intro hall w hw
    obtain ⟨share, hshare, rfl⟩ := List.mem_map.mp (hviews.symm ▸ hw)
    rw [← reached_of_shows hall, hreached] at hshare
    obtain ⟨node, -, hsome⟩ := hpending share hshare
    rw [hsome]
    rfl
  · rw [hsteps]
    split
    · exact iff_of_true ⟨_, rfl⟩ ‹_›
    · exact iff_of_false (by simp) ‹_›

/-- Views become clean. -/
def cleaned (f : Forest W) (views : List View) : Forest W :=
  views.foldl (fun f v ↦ f.modify v Node.withoutRegion) f

theorem alike_cleaned (f : Forest W) (views : List View) : Alike Node.links f (f.cleaned views) :=
  .foldl (fun f v ↦ .modify (fun _ ↦ by rfl) f v) views f

/-- Three views on their own with frames of different sizes. -/
def ragged : Forest Unit :=
  (((empty.create (.ofSides 0 0 100 100)).2.create (.ofSides 90 0 50 50)).2.create (.ofSides 40 0 50 50)).2

theorem reaches_ragged : Reaches empty ragged :=
  (((Reaches.refl empty).step (.create _ _)).step (.create _ _)).step (.create _ _)

/-- A window, a view at its right edge that sticks out of it, and a subview of that one, of which no more than a strip
at the left shows in its superview. All of them are clean. -/
def overhanging : Forest Unit := ((ragged.added ⟨1⟩ ⟨2⟩).added ⟨2⟩ ⟨3⟩).cleaned [⟨1⟩, ⟨2⟩, ⟨3⟩]

theorem wellFormed_overhanging : overhanging.WellFormed :=
  (alike_cleaned _ _).wellFormed (reachable_wellFormed ((reaches_ragged.added ⟨1⟩ ⟨2⟩).added ⟨2⟩ ⟨3⟩))

/-- The right half of the subview does not show in its superview. So the superview has nothing but an empty region
pending, and the window stays as it was. What is pending in the subview is still pending after the superview was
detached from the window. -/
theorem invalidate_climbs_overhanging : ∃ g h, overhanging.contains ⟨3⟩ = true ∧
    overhanging.invalidate ⟨3⟩ (some (.ofSides 25 0 25 50)) = .ok g ∧
      g.pending? ⟨3⟩ = some (.ofSides 25 0 25 50) ∧ g.pending? ⟨2⟩ = some (.ofSides 65 0 0 50) ∧
        g.node? ⟨1⟩ = overhanging.node? ⟨1⟩ ∧
    g.removeFromSuperview ⟨2⟩ = .ok h ∧ AccruingRun g h ∧ (h.pending? ⟨3⟩).isSome = true := by
  have hclean : [⟨3⟩, ⟨2⟩].map overhanging.pending? = [none, none] := by decide +kernel
  have hshares : overhanging.shares [⟨3⟩, ⟨2⟩, ⟨1⟩] (some (.ofSides 25 0 25 50)) =
      [(⟨3⟩, .ofSides 25 0 25 50), (⟨2⟩, .ofSides 65 0 0 50), (⟨1⟩, .ofSides 155 0 0 50)] := by decide +kernel
  have hempty : [Rect.ofSides 25 0 25 50, .ofSides 65 0 0 50].map Rect.isEmpty = [false, true] := by decide +kernel
  have hlineage : overhanging.lineage ⟨3⟩ = .ok [⟨3⟩, ⟨2⟩, ⟨1⟩] := by decide +kernel
  have hlive : [⟨2⟩, ⟨3⟩].map overhanging.contains = [true, true] := by decide +kernel
  simp only [List.map_cons, List.cons.injEq] at hclean hempty hlive
  have hf : overhanging.WellFormed := wellFormed_overhanging
  generalize overhanging = f at *
  obtain ⟨g, chain, run, last, rest, hg, hchain, -, hrun, hshow, hend, hadded, hkept, -⟩ :=
    (invalidate_climbs hf).1 ⟨3⟩ (some (.ofSides 25 0 25 50)) hlive.2.1
  cases hlineage.symm.trans hchain
  have hreached : run = [(⟨3⟩, .ofSides 25 0 25 50)] ∧ last = (⟨2⟩, .ofSides 65 0 0 50) := by
    rw [hshares] at hrun
    rcases run with _ | ⟨first, _ | ⟨second, run⟩⟩
    · cases hrun
      exact absurd hend (by simp [hempty.1])
    · cases hrun
      exact ⟨rfl, rfl⟩
    · have hsecond := (List.cons.inj (List.cons.inj hrun).2).1
      exact absurd (hshow second (by simp)) (by simp [← hsecond, hempty.2.1])
  obtain ⟨rfl, rfl⟩ := hreached
  have hpending {share : View × Rect}
      (hshare : share ∈ [(⟨3⟩, Rect.ofSides 25 0 25 50)] ++ [(⟨2⟩, .ofSides 65 0 0 50)])
      (hwas : f.pending? share.1 = none) : g.pending? share.1 = some share.2 := by
    obtain ⟨node, hnode, hafter⟩ := hadded share hshare
    rw [hafter, ← pending?_of_node? hnode, hwas]
    rfl
  have hsubview : g.pending? ⟨3⟩ = some (.ofSides 25 0 25 50) := hpending (.head _) hclean.1
  have hedge : g.pending? ⟨2⟩ = some (.ofSides 65 0 0 50) := hpending (.tail _ (.head _)) hclean.2.1
  have halike : Alike Node.links f g := (alike_of_invalidate hg).map Node.links
  have hwell : g.WellFormed := halike.wellFormed hf
  obtain ⟨h, hdetached⟩ := hwell.exists_removeFromSuperview ((halike.contains ⟨2⟩).symm.trans hlive.1)
  have haccruing : AccruingRun g h := .step (.refl g) (.reshapes (.removeFromSuperview hdetached))
  have hstays : h.contains ⟨3⟩ = true := by
    rw [contains_removeFromSuperview hwell hdetached, ← halike.contains, hlive.2.1]
  obtain ⟨node, hnode⟩ := contains_iff.mp hstays
  refine ⟨g, h, hlive.2.1, hg, hsubview, hedge, hkept ⟨1⟩ (by simp), hdetached, haccruing, ?_⟩
  rw [pending?_of_node? hnode, Option.isSome_iff_ne_none]
  intro hnone
  obtain ⟨old, hold, -, hwas⟩ := (invalidate_climbs hwell).2.1 h haccruing ⟨3⟩ node hnode hnone
  rw [← pending?_of_node? hold, hsubview] at hwas
  cases hwas

end RetainedUi.Forest
