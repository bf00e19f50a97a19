import RetainedUi.Proofs.Forest.Answers
import RetainedUi.Proofs.Forest.Reachable

/-!
# The leaves that views know

A view that was asked for its leaves keeps the answer. The answer depends on the links in its family and
on nothing else, so it stays right as long as no view of the family gains or loses a subview. When a view
does, the answers of that view and of its ancestors are forgotten, and these are all the views that have
it in their family.
-/

namespace RetainedUi.Forest

variable {W : Type} {f g : Forest W}

/-- The leaves of a view depend on the subviews of its family alone. -/
theorem leafViewsUncached_congr (hf : f.WellFormed) (hg : g.WellFormed) {v : View}
    (hv : f.contains v = true)
    (hsame : ∀ x, f.InFamily v x → g.contains x = true ∧ g.subviewsOf x = f.subviewsOf x) :
    g.leafViewsUncached v = f.leafViewsUncached v := by
  obtain ⟨found, hfound, -⟩ := hf.exists_family hv
  have hmem : ∀ p ∈ found, f.InFamily v p.view := fun p hp ↦
    (hf.mem_family_iff hfound).mp (List.mem_map_of_mem hp)
  have hdescends := hf.family_eq_ok_iff.mp hfound
  have hfound' : g.family v = .ok found := hg.family_eq_ok_iff.mpr <|
    hdescends.congr (fun p hp ↦ (hsame p.view (hmem p hp)).1) fun p hp ↦ (hsame p.view (hmem p hp)).2
  have hleaves : found.filter (fun p ↦ g.isLeaf p.view) = found.filter fun p ↦ f.isLeaf p.view := by
    apply List.filter_congr
    intro p hp
    obtain ⟨hlive, hsubviews⟩ := hsame p.view (hmem p hp)
    rw [isLeaf_eq, isLeaf_eq, hlive, hsubviews, contains_of_inFamily hv (hmem p hp)]
  simp only [leafViewsUncached, hfound, hfound', bind, Except.bind, hleaves]

theorem WellFormed.exists_leafViewsUncached (hf : f.WellFormed) {v : View} (hv : f.contains v = true) :
    ∃ leaves, f.leafViewsUncached v = .ok leaves := by
  obtain ⟨found, hfound, -⟩ := hf.exists_family hv
  exact ⟨_, hf.leafViewsUncached_eq hv hfound⟩

/-- A live view has an answer, be it one that was kept. -/
theorem WellFormed.exists_leafViews (hf : f.WellFormed) {v : View} (hv : f.contains v = true) :
    ∃ leaves g, f.leafViews v = .ok (leaves, g) := by
  obtain ⟨node, hnode⟩ := contains_iff.mp hv
  obtain ⟨leaves, hleaves⟩ := hf.exists_leafViewsUncached hv
  cases hcache : node.leafCache with
  | some known =>
    refine ⟨known, f, ?_⟩
    simp only [leafViews, read_eq_ok.mpr hnode, hcache, bind, Except.bind]
    rfl
  | none =>
    refine ⟨leaves, f.modify v fun node ↦ { node with leafCache := some leaves }, ?_⟩
    simp only [leafViews, read_eq_ok.mpr hnode, hcache, hleaves, bind, Except.bind]
    rfl

theorem contains_of_leafCache? {v : View} {leaves : List Placed} (h : f.leafCache? v = some leaves) :
    f.contains v = true := by
  obtain ⟨node, hnode, -⟩ := Option.bind_eq_some_iff.mp h
  exact contains_iff.mpr ⟨node, hnode⟩

/-! ## Coherence -/

/-- The leaves that views know are those that a walk would find. -/
def LeafCoherent (f : Forest W) : Prop :=
  ∀ v leaves, f.leafCache? v = some leaves → f.leafViewsUncached v = .ok leaves

namespace LeafCoherent

variable (hcoherent : f.LeafCoherent) (hf : f.WellFormed)
include hcoherent hf

/-- What is known stays right if it is only known to views whose family has kept its subviews. -/
theorem of_kept (hg : g.WellFormed)
    (hkept : ∀ v leaves, g.leafCache? v = some leaves → f.leafCache? v = some leaves ∧
      ∀ x, f.InFamily v x → g.contains x = true ∧ g.subviewsOf x = f.subviewsOf x) :
    g.LeafCoherent := by
  intro v leaves hleaves
  obtain ⟨hknown, hsame⟩ := hkept v leaves hleaves
  rw [leafViewsUncached_congr hf hg (contains_of_leafCache? hknown) hsame]
  exact hcoherent v leaves hknown

theorem of_alike (h : Alike Node.shape f g) : g.LeafCoherent := by
  have hlinks : Alike Node.links f g := h.map Prod.fst
  have hleaves : Alike Node.leafCache f g := h.map Prod.snd
  apply hcoherent.of_kept hf (hlinks.wellFormed hf)
  intro v leaves hknown
  refine ⟨(hleaves.leafCache? v).trans hknown, fun x hx ↦ ⟨?_, (hlinks.subviewsOf x).symm⟩⟩
  rw [← hlinks.contains]
  exact contains_of_inFamily (contains_of_leafCache? ((hleaves.leafCache? v).trans hknown)) hx

/-- A query for leaves only adds what its own walk has found. -/
theorem of_leafViews {v : View} {leaves : List Placed} (h : f.leafViews v = .ok (leaves, g)) :
    g.LeafCoherent := by
  have hlinks : Alike Node.links f g := (alike_of_leafViews h).map Node.links
  have hwell : g.WellFormed := hlinks.wellFormed hf
  have hsame {w : View} (hw : f.contains w = true) : g.leafViewsUncached w = f.leafViewsUncached w :=
    leafViewsUncached_congr hf hwell hw fun x hx ↦
      ⟨hlinks.contains x ▸ contains_of_inFamily hw hx, (hlinks.subviewsOf x).symm⟩
  simp only [leafViews, bind_eq_ok, read_eq_ok] at h
  obtain ⟨node, hnode, h⟩ := h
  cases hcache : node.leafCache with
  | some known =>
    rw [hcache] at h
    cases h
    exact hcoherent
  | none =>
    rw [hcache] at h
    obtain ⟨fresh, hfresh, h⟩ := bind_eq_ok.mp h
    cases h
    intro w known hknown
    by_cases hview : w = v
    · subst hview
      rw [hsame (contains_iff.mpr ⟨node, hnode⟩), hfresh]
      simpa [leafCache?, node?_modify_self hnode] using hknown
    · have hold : f.leafCache? w = some known := by
        simpa [leafCache?, node?_modify_of_ne hview] using hknown
      rw [hsame (contains_of_leafCache? hold)]
      exact hcoherent w known hold

/-- A view that gains or loses subviews is in the family of no view that keeps what it knows. -/
theorem of_relinks {linked : Forest W} {parent : View} (hlinked : linked.WellFormed)
    (hrelinks : Relinks linked g parent) (hlive : ∀ x, linked.contains x = f.contains x)
    (hleaves : ∀ x, linked.leafCache? x = f.leafCache? x)
    (hsubviews : ∀ x, x ≠ parent → linked.subviewsOf x = f.subviewsOf x)
    (habove : ∀ x, f.InFamily x parent → linked.InFamily x parent) : g.LeafCoherent := by
  have hwell : g.WellFormed := hrelinks.alike.wellFormed hlinked
  apply hcoherent.of_kept hf hwell
  intro v leaves hknown
  have hapart : ¬ linked.InFamily v parent := by
    intro hbelow
    rw [hrelinks.forgotten v hbelow] at hknown
    cases hknown
  have hold : f.leafCache? v = some leaves := by
    rw [← hleaves, ← hrelinks.kept v hapart, hknown]
  refine ⟨hold, fun x hx ↦ ⟨?_, ?_⟩⟩
  · rw [← hrelinks.alike.contains, hlive]
    exact contains_of_inFamily (contains_of_leafCache? hold) hx
  · rw [← hrelinks.alike.subviewsOf]
    refine hsubviews x ?_
    intro heq
    subst heq
    exact hapart (habove v hx)

theorem of_addView {parent child : View} (h : f.addView parent child = .ok (.ok g)) : g.LeafCoherent := by
  obtain ⟨hparent, hchild, hroot, hout, frame, hg⟩ := addView_eq_ok hf h
  have hlinked := wellFormed_link hf hparent hchild hroot hout
  have hleaves : Alike Node.leafCache f (f.link parent child) :=
    (Alike.modify (fun _ ↦ by rfl) f child).trans (Alike.modify (fun _ ↦ by rfl) _ parent)
  have habove : ∀ p c, f.Above p c → (f.link parent child).Above p c := by
    intro p c hlink
    have hne : c ≠ child := by
      intro heq
      subst heq
      rw [Above, hroot] at hlink
      cases hlink
    rw [Above, superview?_link hchild, if_neg hne]
    exact hlink
  refine hcoherent.of_relinks hf hlinked (relinks_of_relinked hlinked hg) (by simp)
    (fun x ↦ (hleaves.leafCache? x).symm) (fun x hx ↦ by rw [subviewsOf_link hparent, if_neg hx]) ?_
  exact fun x hx ↦ Relation.ReflTransGen.mono habove x parent hx

theorem of_removeFromSuperview {v : View} (h : f.removeFromSuperview v = .ok g) : g.LeafCoherent := by
  obtain ⟨-, ⟨-, rfl⟩ | ⟨parent, hup, frame, hg⟩⟩ := removeFromSuperview_eq_ok h
  · exact hcoherent
  · have hunlinked := wellFormed_unlink hf hup
    have hleaves : Alike Node.leafCache f (f.unlink parent v) :=
      (Alike.modify (fun _ ↦ by rfl) f v).trans (Alike.modify (fun _ ↦ by rfl) _ parent)
    refine hcoherent.of_relinks hf hunlinked (relinks_of_relinked hunlinked hg) (by simp)
      (fun x ↦ (hleaves.leafCache? x).symm) (fun x hx ↦ by rw [subviewsOf_unlink, if_neg hx]) ?_
    -- The link that is gone lies on no chain down to the superview.
    intro x hx
    induction hx using Relation.ReflTransGen.head_induction_on with
    | refl => exact .refl
    | @head p c hlink hbelow ih =>
      have hne : c ≠ v := by
        intro heq
        subst heq
        exact hf.not_inFamily_of_above hup hbelow
      have hlink' : (f.unlink parent v).Above p c := by
        rw [Above, superview?_unlink, if_neg hne]
        exact hlink
      exact ih.head hlink'

theorem of_destroy {v : View} (h : f.destroy v = .ok g) : g.LeafCoherent := by
  obtain ⟨-, rfl⟩ | ⟨mid, freed, hmid, hwell, hroot, hfreed, hmem⟩ := destroy_eq_ok hf h
  · exact hcoherent
  · have hclosed : ∀ p c, mid.Above p c → (p ∈ freed ↔ c ∈ freed) := by
      intro p c hlink
      rw [hmem, hmem]
      exact inFamily_iff_of_above hroot hlink
    refine (hcoherent.of_removeFromSuperview hf hmid).of_kept hwell (hfreed.wellFormed hwell hclosed) ?_
    intro w leaves hknown
    have hw : w ∉ freed := by
      intro hw
      simp [leafCache?, hfreed.node?, hw] at hknown
    have hold : mid.leafCache? w = some leaves := by
      simpa [leafCache?, hfreed.node?, hw] using hknown
    refine ⟨hold, fun x hx ↦ ?_⟩
    -- No chain leads from a view that is left into the family that is gone.
    have hx' : x ∉ freed := by
      induction hx with
      | refl => exact hw
      | tail _ hlink ih => exact fun hfreed' ↦ ih ((hclosed _ _ hlink).mpr hfreed')
    have hlive : mid.contains x = true := contains_of_inFamily (contains_of_leafCache? hold) hx
    refine ⟨?_, by rw [hfreed.subviewsOf, if_neg hx']⟩
    rw [Forest.contains, hfreed.node?, if_neg hx']
    exact hlive

theorem of_insert (frame : Rect) (role : Role) : (f.insert (.detached frame role)).2.LeafCoherent := by
  apply hcoherent.of_kept hf (wellFormed_insert hf rfl rfl)
  intro v leaves hknown
  have hold : f.leafCache? v = some leaves := by
    rw [leafCache?, node?_insert hf] at hknown
    split at hknown
    · cases hknown
    · exact hknown
  refine ⟨hold, fun x hx ↦ ⟨?_, subviewsOf_insert hf rfl x⟩⟩
  have hlive := contains_of_inFamily (contains_of_leafCache? hold) hx
  rw [contains, node?_insert hf]
  split
  · rfl
  · exact hlive

theorem of_reshapes (h : Reshapes f g) : g.LeafCoherent := by
  have hlive {v x : View} {leaves : List Placed} (hknown : f.leafCache? v = some leaves)
      (hx : f.InFamily v x) : f.contains x = true :=
    contains_of_inFamily (contains_of_leafCache? hknown) hx
  cases h with
  | rearrange hperm =>
    exact hcoherent.of_kept hf (wellFormed_rearrange hf hperm) fun v leaves hknown ↦
      ⟨hknown, fun x hx ↦ ⟨hlive hknown hx, rfl⟩⟩
  | grow =>
    apply hcoherent.of_kept hf (wellFormed_grow hf)
    intro v leaves hknown
    rw [leafCache?, node?_grow] at hknown
    refine ⟨hknown, fun x hx ↦ ?_⟩
    rw [contains, subviewsOf, node?_grow]
    exact ⟨hlive hknown hx, rfl⟩
  | insert frame role => exact hcoherent.of_insert hf frame role
  | addView h => exact hcoherent.of_addView hf h
  | removeFromSuperview h => exact hcoherent.of_removeFromSuperview hf h
  | destroy h => exact hcoherent.of_destroy hf h

theorem step (h : Step f g) : g.LeafCoherent := by
  rcases h.cases_shape with h | ⟨v, leaves, h⟩ | h
  · exact hcoherent.of_reshapes hf h
  · exact hcoherent.of_leafViews hf h
  · exact hcoherent.of_alike hf h

end LeafCoherent

theorem leafCoherent_empty : (empty : Forest W).LeafCoherent := by
  intro v leaves h
  obtain ⟨node, hnode⟩ := contains_iff.mp (contains_of_leafCache? h)
  simp [node?_empty] at hnode

/-- Views know nothing wrong about leaves at any point of a run. -/
theorem reachable_leafCoherent (hf : Reaches empty f) : f.LeafCoherent := by
  have hboth : f.WellFormed ∧ f.LeafCoherent := by
    apply hf.preserves (P := fun f ↦ f.WellFormed ∧ f.LeafCoherent)
    · intro f g hboth hstep
      exact ⟨hstep.wellFormed hboth.1, hboth.2.step hboth.1 hstep⟩
    · exact ⟨wellFormed_empty, leafCoherent_empty⟩
  exact hboth.2

/-- The answer of the query is that of the walk, with the answer known or not. -/
theorem LeafCoherent.leafViews_eq (hcoherent : f.LeafCoherent) {v : View} {leaves : List Placed}
    (hleaves : f.leafViewsUncached v = .ok leaves) (hv : f.contains v = true) :
    ∃ g, f.leafViews v = .ok (leaves, g) := by
  obtain ⟨node, hnode⟩ := contains_iff.mp hv
  cases hcache : node.leafCache with
  | none =>
    simp only [leafViews, read_eq_ok.mpr hnode, hcache, hleaves, bind, Except.bind]
    exact ⟨_, rfl⟩
  | some known =>
    have hknown : f.leafCache? v = some known := by simp [leafCache?, hnode, hcache]
    obtain rfl : known = leaves := Except.ok.inj ((hcoherent v known hknown).symm.trans hleaves)
    simp only [leafViews, read_eq_ok.mpr hnode, hcache, bind, Except.bind]
    exact ⟨f, rfl⟩

/-- In every reachable forest, the leaves that a live view knows are those that a walk finds, and the
query for its leaves answers just what a walk finds. -/
theorem reachable_leafViews (hf : Reaches empty f) {v : View} (hv : f.contains v = true) :
    (∀ node known, f.node? v = some node → node.leafCache = some known →
      f.leafViewsUncached v = .ok known) ∧
    ∃ leaves g, f.leafViewsUncached v = .ok leaves ∧ f.leafViews v = .ok (leaves, g) := by
  have hwell : f.WellFormed := reachable_wellFormed hf
  have hcoherent : f.LeafCoherent := reachable_leafCoherent hf
  refine ⟨fun node known hnode hknown ↦ ?_, ?_⟩
  · exact hcoherent v known (by simp [leafCache?, hnode, hknown])
  · obtain ⟨leaves, hleaves⟩ := hwell.exists_leafViewsUncached hv
    obtain ⟨g, hg⟩ := hcoherent.leafViews_eq hleaves hv
    exact ⟨leaves, g, hleaves, hg⟩

/-- A view still knows its leaves after it was attached to another one. -/
theorem reachable_leafViews_attached : ∃ f : Forest Unit, Reaches empty f ∧
    f.superview? ⟨2⟩ = some ⟨1⟩ ∧ f.leafCache? ⟨2⟩ = some [⟨⟨2⟩, 1⟩] ∧
    f.leafViewsUncached ⟨2⟩ = .ok [⟨⟨2⟩, 1⟩] := by
  let apart : Forest Unit := (((empty : Forest Unit).create .zero).2.create .zero).2
  let asked : Forest Unit := apart.modify ⟨2⟩ fun node ↦ { node with leafCache := some [⟨⟨2⟩, 1⟩] }
  have hquery : apart.leafViews ⟨2⟩ = .ok ([⟨⟨2⟩, 1⟩], asked) := by
    have hfamily : apart.family ⟨2⟩ = .ok [⟨⟨2⟩, 1⟩] := rfl
    have hfresh : apart.leafViewsUncached ⟨2⟩ = .ok [⟨⟨2⟩, 1⟩] := by
      rw [leafViewsUncached, hfamily]
      exact congrArg Except.ok (List.mergeSort_singleton _)
    have hread : apart.read ⟨2⟩ = .ok { Node.detached .zero .plain with serial := 2 } := rfl
    simp only [leafViews, hread, hfresh, Node.detached, bind, Except.bind, asked]
    rfl
  have hasked : Reaches empty asked :=
    (((Reaches.refl empty).step (.create _ .zero)).step (.create _ .zero)).step (.leafViews hquery)
  have hwell : asked.WellFormed := reachable_wellFormed hasked
  have hout : ¬ asked.InFamily ⟨2⟩ ⟨1⟩ := by
    rw [inFamily_iff_eq_or_superview]
    rintro (hsame | ⟨p, hp, -⟩)
    · simp at hsame
    · cases hp
  obtain ⟨f, hf⟩ := hwell.exists_addView rfl rfl rfl hout
  have hreach : Reaches empty f := hasked.step (.addView hf)
  obtain ⟨-, hchild, -, -, frame, hrelinked⟩ := addView_eq_ok hwell hf
  have hlinked := wellFormed_link hwell rfl rfl rfl hout
  have hrelinks := relinks_of_relinked hlinked hrelinked
  have hup : f.superview? ⟨2⟩ = some ⟨1⟩ := by
    rw [← hrelinks.alike.superview?, superview?_link hchild, if_pos rfl]
  have hapart : ¬ (asked.link ⟨1⟩ ⟨2⟩).InFamily ⟨2⟩ ⟨1⟩ := hlinked.not_inFamily_of_above <| by
    rw [Above, superview?_link hchild, if_pos rfl]
  have hknown : f.leafCache? ⟨2⟩ = some [⟨⟨2⟩, 1⟩] := hrelinks.kept ⟨2⟩ hapart
  obtain ⟨node, hnode, hcache⟩ := Option.bind_eq_some_iff.mp hknown
  have hlive : f.contains ⟨2⟩ = true := contains_of_leafCache? hknown
  exact ⟨f, hreach, hup, hknown, (reachable_leafViews hreach hlive).1 node _ hnode hcache⟩

end RetainedUi.Forest
