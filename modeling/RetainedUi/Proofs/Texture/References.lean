import RetainedUi.Desktop.Window
import RetainedUi.Proofs.Texture.Holdings

/-!
# References to textures

A cache is used by requests, retains and releases in any order, and all of it may be released at once. The
calls are kept in a history with their answers, the last one in front, and the references that are out for a
name are told from the history alone: what was requested and retained since the name was last loaded, less
what was released.

The cache counts just these references. A texture is released with its last reference, and with its window
otherwise, so none is leaked and none is released twice.
-/

namespace RetainedUi

/-- What a user may ask of a cache. -/
inductive CacheCall where
  /-- The picture is what the data of the request was decoded to. -/
  | request (name : String) (picture : Option Picture)
  | retain (name : String)
  | release (name : String)
  | releaseAll

inductive CacheAnswer where
  | requested (answer : Except Fault Texture)
  | retained (answer : Option Texture)
  | released (last : Bool)
  | releasedAll

/-- What a call makes of a cache and its device. -/
def CacheCall.run (c : TextureCache) (r : Recorder) :
    CacheCall → Except Halt (CacheAnswer × TextureCache × Recorder)
  | .request name picture => do
    let (answer, c, r) ← c.request r name picture
    return (.requested answer, c, r)
  | .retain name =>
    let (answer, c) := c.retain name
    .ok (.retained answer, c, r)
  | .release name =>
    let (last, c, r, _) := c.release r name
    .ok (.released last, c, r)
  | .releaseAll =>
    let (c, r) := c.releaseAll r
    .ok (.releasedAll, c, r)

/-- The references added and taken away since a name was last loaded. -/
structure Tally where
  requests : Nat
  retains : Nat
  releases : Nat
  deriving DecidableEq, Repr

namespace Tally

def zero : Tally := ⟨0, 0, 0⟩

/-- The references that are out. -/
def held (t : Tally) : Nat := t.requests + t.retains - t.releases

/-- A request starts the count anew if no reference is out. Only then does it load anything. A release counts
only if a reference is out. -/
def after (name : String) (t : Tally) : CacheCall × CacheAnswer → Tally
  | (.request other _, .requested (.ok _)) =>
    if other ≠ name then t else if t.held = 0 then ⟨1, 0, 0⟩ else { t with requests := t.requests + 1 }
  | (.retain other, .retained (some _)) => if other = name then { t with retains := t.retains + 1 } else t
  | (.release other, _) => if other = name ∧ 0 < t.held then { t with releases := t.releases + 1 } else t
  | (.releaseAll, _) => zero
  | _ => t

/-- The tally of a name after a history. -/
def ofHistory (name : String) (history : List (CacheCall × CacheAnswer)) : Tally :=
  history.foldr (fun entry t ↦ t.after name entry) zero

end Tally

namespace TextureCache

/-- The history leads from a fresh cache on a fresh device to these. -/
inductive Reached : List (CacheCall × CacheAnswer) → TextureCache → Recorder → Prop where
  | fresh : Reached [] .empty .fresh
  | call {history : List (CacheCall × CacheAnswer)} {c c' : TextureCache} {r r' : Recorder}
      {call : CacheCall} {answer : CacheAnswer} (h : Reached history c r)
      (hrun : call.run c r = .ok (answer, c', r')) : Reached ((call, answer) :: history) c' r'

variable {c : TextureCache} {r : Recorder} {name other : String} {t : Texture}

theorem InStep.run (h : c.InStep r) {call : CacheCall} {answer : CacheAnswer} {c' : TextureCache} {r' : Recorder}
    (hrun : call.run c r = .ok (answer, c', r')) : c'.InStep r' := by
  cases call with
  | request name picture =>
    obtain ⟨⟨requested, _, _⟩, hrequest, hrun⟩ := bind_eq_ok.mp hrun
    cases hrun
    rcases request_eq_ok hrequest with ⟨cached, -, -, rfl, rfl⟩ |
      ⟨hnone, ⟨fault, -, rfl, rfl⟩ | ⟨width, height, -, rfl, rfl⟩⟩
    · exact h.setReferences (Nat.succ_pos _)
    · exact h
    · exact h.load hnone width height
  | retain name =>
    simp only [CacheCall.run, retain, Except.ok.injEq, Prod.mk.injEq] at hrun
    obtain ⟨-, rfl, rfl⟩ := hrun
    cases c.find? name with
    | none => exact h
    | some cached => exact h.setReferences (Nat.succ_pos _)
  | release name =>
    simp only [CacheCall.run, release, Except.ok.injEq, Prod.mk.injEq] at hrun
    obtain ⟨-, rfl, rfl⟩ := hrun
    cases hfound : c.find? name with
    | none => exact h
    | some cached =>
      dsimp only
      split
      · exact h.setReferences (by omega)
      · exact h.drop hfound
  | releaseAll =>
    cases hrun
    exact h.releaseAll.1

theorem Reached.inStep {history : List (CacheCall × CacheAnswer)} (h : Reached history c r) :
    c.InStep r := by
  induction h with
  | fresh => exact .fresh
  | call _ hrun ih => exact ih.run hrun

/-! ## The count of a name -/

theorem references_of_find? {cached : CachedTexture} (h : c.find? name = some cached) :
    c.references name = cached.references := by
  simp [references, h]

theorem references_setReferences (h : c.find? name ≠ none) (references : Nat) (other : String) :
    (c.setReferences name references).references other =
      if other = name then references else c.references other := by
  obtain ⟨cached, hcached⟩ := Option.ne_none_iff_exists'.mp h
  unfold TextureCache.references
  rw [find?_setReferences]
  by_cases hother : other = name
  · subst hother
    simp [hcached]
  · simp [hother]

theorem references_eq_zero_iff (h : c.InStep r) : c.references name = 0 ↔ c.find? name = none := by
  cases hfound : c.find? name with
  | none => simp [references, hfound]
  | some cached =>
    have hpos := h.references_pos name cached hfound
    simp [references, hfound, Nat.pos_iff_ne_zero.mp hpos]

/-- The tally of a name agrees with the count of the cache. -/
structure Counts (c : TextureCache) (name : String) (t : Tally) : Prop where
  held : c.references name = t.held
  releases_le : t.releases ≤ t.requests + t.retains

namespace Counts

variable {tally : Tally}

/-- A call about another name changes neither side. -/
theorem of_ne (hcounts : c.Counts name tally) {c' : TextureCache} (hname : c'.find? name = c.find? name) :
    c'.Counts name tally := by
  refine ⟨?_, hcounts.releases_le⟩
  rw [← hcounts.held, TextureCache.references, TextureCache.references, hname]

/-- The count of a name that is loaded is what the tally holds. -/
theorem references_eq (hcounts : c.Counts name tally) {cached : CachedTexture}
    (hfound : c.find? name = some cached) : cached.references = tally.held :=
  (references_of_find? hfound).symm.trans hcounts.held

theorem setReferences {cached : CachedTexture} (hfound : c.find? name = some cached) {references : Nat}
    (hheld : references = tally.held) (hle : tally.releases ≤ tally.requests + tally.retains) :
    (c.setReferences name references).Counts name tally := by
  refine ⟨?_, hle⟩
  rw [references_setReferences (by simp [hfound]), if_pos rfl, hheld]

theorem request_loaded (h : c.InStep r) (hcounts : c.Counts name tally) {cached : CachedTexture}
    (hfound : c.find? name = some cached) (picture : Option Picture) :
    (c.setReferences name (cached.references + 1)).Counts name
      (tally.after name (.request name picture, .requested (.ok cached.texture))) := by
  have hheld := hcounts.references_eq hfound
  have hpos := h.references_pos name cached hfound
  have hle := hcounts.releases_le
  have hafter : tally.after name (.request name picture, .requested (.ok cached.texture)) =
      { tally with requests := tally.requests + 1 } := by
    have hout : tally.held ≠ 0 := by omega
    simp [Tally.after, hout]
  rw [hafter]
  refine setReferences hfound ?_ ?_
  · rw [hheld]
    simp only [Tally.held]
    omega
  · dsimp only
    omega

/-- A name is loaded only when no reference is out, so its count starts anew. -/
theorem request_load (hcounts : c.Counts name tally) (hnone : c.find? name = none) (picture : Option Picture)
    (width height : UInt32) :
    (c.withLoaded name t width height).Counts name
      (tally.after name (.request name picture, .requested (.ok t))) := by
  have hout : tally.held = 0 := by rw [← hcounts.held, TextureCache.references, hnone]; rfl
  have hafter : tally.after name (.request name picture, .requested (.ok t)) = ⟨1, 0, 0⟩ := by
    simp [Tally.after, hout]
  rw [hafter]
  constructor
  · rw [TextureCache.references, find?_withLoaded hnone, if_pos rfl]
    rfl
  · exact Nat.zero_le _

theorem retain (hcounts : c.Counts name tally) (other : String) :
    (c.retain other).2.Counts name (tally.after name (.retain other, .retained (c.retain other).1)) := by
  unfold TextureCache.retain
  cases hfound : c.find? other with
  | none => exact hcounts
  | some cached =>
    by_cases hother : other = name
    · subst hother
      have hle := hcounts.releases_le
      simp only [Tally.after, if_true]
      refine setReferences hfound ?_ ?_
      · rw [hcounts.references_eq hfound]
        simp only [Tally.held]
        omega
      · dsimp only
        omega
    · simp only [Tally.after, if_neg hother]
      apply hcounts.of_ne
      rw [find?_setReferences, if_neg (Ne.symm hother)]

theorem release (h : c.InStep r) (hcounts : c.Counts name tally) (other : String) (last : Bool) :
    (c.release r other).2.1.Counts name (tally.after name (.release other, .released last)) := by
  unfold TextureCache.release
  have hle := hcounts.releases_le
  cases hfound : c.find? other with
  | none =>
    have hkept : tally.after name (.release other, .released last) = tally := by
      rw [Tally.after, if_neg]
      rintro ⟨rfl, hout⟩
      rw [← hcounts.held, (references_eq_zero_iff h).mpr hfound] at hout
      exact Nat.lt_irrefl 0 hout
    rw [hkept]
    exact hcounts
  | some cached =>
    by_cases hother : other = name
    · subst hother
      have hheld := hcounts.references_eq hfound
      have hpos := h.references_pos other cached hfound
      have hafter : tally.after other (.release other, .released last) =
          { tally with releases := tally.releases + 1 } := by
        have hout : 0 < tally.held := by omega
        simp [Tally.after, hout]
      unfold Tally.held at hheld
      rw [hafter]
      dsimp only
      -- The last reference goes with the entry, so that nothing is left to be counted.
      split
      · refine setReferences hfound ?_ ?_
        · simp only [Tally.held]
          omega
        · dsimp only
          omega
      · constructor
        · rw [TextureCache.references, find?_filter_names, if_pos rfl]
          simp only [Tally.held, Option.map_none, Option.getD_none]
          omega
        · dsimp only
          omega
    · have hkept : tally.after name (.release other, .released last) = tally := by
        rw [Tally.after, if_neg fun hboth ↦ hother hboth.1]
      rw [hkept]
      apply hcounts.of_ne
      dsimp only
      split
      · rw [find?_setReferences, if_neg (Ne.symm hother)]
      · rw [find?_filter_names, if_neg (Ne.symm hother)]

theorem run (h : c.InStep r) (hcounts : c.Counts name tally) {call : CacheCall} {answer : CacheAnswer}
    {c' : TextureCache} {r' : Recorder} (hrun : call.run c r = .ok (answer, c', r')) :
    c'.Counts name (tally.after name (call, answer)) := by
  cases call with
  | request other picture =>
    obtain ⟨⟨requested, _, _⟩, hrequest, hrun⟩ := bind_eq_ok.mp hrun
    cases hrun
    rcases request_eq_ok hrequest with ⟨cached, hfound, rfl, rfl, -⟩ |
      ⟨hnone, ⟨fault, rfl, rfl, -⟩ | ⟨width, height, rfl, rfl, -⟩⟩
    · by_cases hother : other = name
      · subst hother
        exact hcounts.request_loaded h hfound picture
      · rw [Tally.after, if_pos hother]
        apply hcounts.of_ne
        rw [find?_setReferences, if_neg (Ne.symm hother)]
    · exact hcounts
    · by_cases hother : other = name
      · subst hother
        exact hcounts.request_load hnone picture width height
      · rw [Tally.after, if_pos hother]
        apply hcounts.of_ne
        rw [find?_withLoaded hnone, if_neg (Ne.symm hother)]
  | retain other =>
    simp only [CacheCall.run, Except.ok.injEq, Prod.mk.injEq] at hrun
    obtain ⟨rfl, rfl, -⟩ := hrun
    exact hcounts.retain other
  | release other =>
    simp only [CacheCall.run, Except.ok.injEq, Prod.mk.injEq] at hrun
    obtain ⟨rfl, rfl, -⟩ := hrun
    exact hcounts.release h other _
  | releaseAll =>
    cases hrun
    exact ⟨rfl, Nat.zero_le _⟩

end Counts

theorem Reached.counts {history : List (CacheCall × CacheAnswer)} (h : Reached history c r) (name : String) :
    c.Counts name (.ofHistory name history) := by
  induction h with
  | fresh => exact ⟨rfl, Nat.le_refl 0⟩
  | call hbefore hrun ih => exact ih.run hbefore.inStep hrun

/-! ## What a user can rely on -/

/-- Whether the answer to a release is that of a cache that drops the last reference only. Then the device is
asked to release one texture, and otherwise nothing. -/
def ReleasesLast (c : TextureCache) (r : Recorder) (name : String) : Prop :=
  let (last, c', r', _) := c.release r name
  if last then
    c.references name = 1 ∧ c'.texture? name = none ∧
      ∃ t, c.texture? name = some t ∧ r'.log = r.log.push (.releaseTexture t)
  else c.references name ≠ 1 ∧ r' = r

namespace InStep

variable (h : c.InStep r)
include h

theorem releasesLast (name : String) : c.ReleasesLast r name := by
  unfold ReleasesLast release
  cases hfound : c.find? name with
  | none =>
    have hzero : c.references name = 0 := (references_eq_zero_iff h).mpr hfound
    simp [hzero]
  | some cached =>
    have hpos := h.references_pos name cached hfound
    rw [references_of_find? hfound]
    dsimp only
    by_cases hmore : 1 < cached.references
    · have hne : cached.references ≠ 1 := by omega
      simp [hmore, hne]
    · simp only [if_neg hmore, if_true]
      refine ⟨by omega, ?_, cached.texture, by simp [texture?, hfound], rfl⟩
      simp [texture?, find?_filter_names]

theorem mem_live_iff (t : Texture) : t ∈ r.live ↔ ∃ name, c.texture? name = some t := by
  rw [h.live, List.mem_reverse, textures, List.mem_map]
  constructor
  · rintro ⟨⟨name, cached⟩, hentry, rfl⟩
    exact ⟨name, by rw [texture?, find?_of_mem h.names_nodup hentry]; rfl⟩
  · rintro ⟨name, hname⟩
    obtain ⟨cached, hfound, rfl⟩ := Option.map_eq_some_iff.mp hname
    exact ⟨(name, cached), mem_of_find? hfound, rfl⟩

/-- Different names have different textures. -/
theorem texture?_injective (hname : c.texture? name = some t) (hother : c.texture? other = some t) :
    name = other := by
  obtain ⟨first, hfirst, rfl⟩ := Option.map_eq_some_iff.mp hname
  obtain ⟨second, hsecond, hsame⟩ := Option.map_eq_some_iff.mp hother
  have heq := List.inj_on_of_nodup_map h.textures_nodup (mem_of_find? hsecond) (mem_of_find? hfirst) hsame
  exact congrArg Prod.fst heq.symm

/-- A texture that is in the cache no longer was released, and releasing everything releases the rest. -/
theorem releases_releaseAll (hcreated : r.Created t) : (c.releaseAll r).2.releases t = 1 := by
  obtain ⟨hafter, hkept⟩ := h.releaseAll
  apply hafter.balanced.releases_eq_one ((hkept t).mpr hcreated)
  rw [hafter.live]
  exact List.not_mem_nil

end InStep

/-- A request that fails changes nothing. -/
theorem request_eq_of_error {picture : Option Picture} {fault : Fault} {c' : TextureCache} {r' : Recorder}
    (h : c.request r name picture = .ok (.error fault, c', r')) : c' = c ∧ r' = r := by
  rcases request_eq_ok h with ⟨cached, -, hanswer, -⟩ |
    ⟨-, ⟨other, -, hsame⟩ | ⟨width, height, hanswer, -⟩⟩
  · cases hanswer
  · exact hsame
  · cases hanswer

/-- References are counted without a leak: the cache holds those that the history has left over. The textures
alive are those in the cache. None is ever released twice, and a window that goes releases what is left. -/
theorem Reached.references_balance {history : List (CacheCall × CacheAnswer)} (h : Reached history c r) :
    (∀ name cached, c.find? name = some cached → 0 < cached.references) ∧
    (∀ name other t, c.texture? name = some t → c.texture? other = some t → name = other) ∧
    (r.live.Nodup ∧ ∀ t, t ∈ r.live ↔ ∃ name, c.texture? name = some t) ∧
    (∀ name, let tally := Tally.ofHistory name history
      tally.releases ≤ tally.requests + tally.retains ∧
        c.references name = tally.requests + tally.retains - tally.releases) ∧
    (∀ name, c.ReleasesLast r name) ∧
    (∀ t, r.releases t ≤ 1 ∧ (r.Created t → (c.releaseAll r).2.releases t = 1)) ∧
    (∀ (W : Type) (w : Window W) (screen : Screen), w.textures = c → screen.recorder = r →
      ∀ t, r.Created t → (w.release screen).1.recorder.releases t = 1) ∧
    ∀ name picture fault c' r', c.request r name picture = .ok (.error fault, c', r') → c' = c ∧ r' = r := by
  have hstep := h.inStep
  refine ⟨hstep.references_pos, ?_, ⟨hstep.balanced.nodup_live, hstep.mem_live_iff⟩, ?_, hstep.releasesLast,
    ?_, ?_, ?_⟩
  · intro name other t
    exact hstep.texture?_injective
  · intro name
    have hcounts := h.counts name
    exact ⟨hcounts.releases_le, hcounts.held⟩
  · intro t
    exact ⟨hstep.balanced.releases_le_one t, hstep.releases_releaseAll⟩
  · rintro W w screen rfl rfl t hcreated
    exact hstep.releases_releaseAll hcreated
  · intro name picture fault c' r'
    exact request_eq_of_error

/-- A name is requested and retained. Another name is loaded and released, and a later request of it fails. -/
theorem references_balance_shared : ∃ history c r, Reached history c r ∧ c.references "tiles" = 2 ∧
    (∀ t, t ∈ r.live ↔ ∃ name, c.texture? name = some t) ∧ r.releases ⟨2⟩ ≤ 1 ∧
    (c.releaseAll r).2.releases ⟨1⟩ = 1 := by
  let tiles : CachedTexture := ⟨⟨1⟩, 1, 1, 1⟩
  let icons : CachedTexture := ⟨⟨2⟩, 2, 1, 1⟩
  let shared : CachedTexture := { tiles with references := 2 }
  let loaded := Recorder.fresh.withNext 1 1
  have hloaded := Reached.fresh.call (show CacheCall.run .empty .fresh (.request "tiles" (some ⟨1, 1, 4⟩)) =
    .ok (.requested (.ok ⟨1⟩), ⟨[("tiles", tiles)]⟩, loaded) from rfl)
  have hretained := hloaded.call (show CacheCall.run _ _ (.retain "tiles") =
    .ok (.retained (some ⟨1⟩), ⟨[("tiles", shared)]⟩, loaded) from rfl)
  have hsecond := hretained.call (show CacheCall.run _ _ (.request "icons" (some ⟨2, 1, 8⟩)) =
    .ok (.requested (.ok ⟨2⟩), ⟨[("tiles", shared), ("icons", icons)]⟩, loaded.withNext 2 1) from rfl)
  have hreleased := hsecond.call (show CacheCall.run _ _ (.release "icons") =
    .ok (.released true, ⟨[("tiles", shared)]⟩, (loaded.withNext 2 1).releaseTexture ⟨2⟩) from rfl)
  have hfailed := hreleased.call (show CacheCall.run _ _ (.request "icons" none) =
    .ok (.requested (.error .image), ⟨[("tiles", shared)]⟩, (loaded.withNext 2 1).releaseTexture ⟨2⟩) from rfl)
  obtain ⟨-, -, hlive, hcount, -, honce, -⟩ := hfailed.references_balance
  exact ⟨_, _, _, hfailed, (hcount "tiles").2, hlive.2, (honce ⟨2⟩).1, (honce ⟨1⟩).2 ⟨1, 1, by decide +kernel⟩⟩

end TextureCache

end RetainedUi
