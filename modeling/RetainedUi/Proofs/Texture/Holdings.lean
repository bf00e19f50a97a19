import RetainedUi.Proofs.Pass
import RetainedUi.Proofs.Texture.Balance
import RetainedUi.Texture.Cache

/-!
# A cache in step with its device

Every name in the cache has one entry, which somebody refers to, and the textures alive on the device are those
of the entries. So the device is never asked to release a texture that is not alive. Each way in which a call
changes the cache keeps the two in step.
-/

namespace RetainedUi

namespace TextureCache

/-! ## Looking up names -/

variable {c : TextureCache} {r : Recorder} {name other : String} {t : Texture}

/-- The textures in the cache, in the order of loading. -/
def textures (c : TextureCache) : List Texture := c.entries.map fun entry ↦ entry.2.texture

def names (c : TextureCache) : List String := c.entries.map Prod.fst

theorem mem_of_find? {cached : CachedTexture} (h : c.find? name = some cached) :
    (name, cached) ∈ c.entries := by
  obtain ⟨before, behind, hentries, -⟩ := List.lookup_eq_some_iff.mp h
  simp [hentries]

theorem find?_of_mem (hnames : c.names.Nodup) {cached : CachedTexture} (h : (name, cached) ∈ c.entries) :
    c.find? name = some cached := by
  obtain ⟨before, behind, hentries⟩ := List.append_of_mem h
  refine List.lookup_eq_some_iff.mpr ⟨before, behind, hentries, fun entry hentry ↦ ?_⟩
  rw [names, hentries, List.map_append, List.map_cons, List.nodup_append] at hnames
  have hne := hnames.2.2 entry.1 (List.mem_map_of_mem hentry) name (by simp)
  simpa using hne.symm

theorem find?_setReferences (c : TextureCache) (name other : String) (references : Nat) :
    (c.setReferences name references).find? other =
      if other = name then (c.find? other).map fun cached ↦ { cached with references } else c.find? other := by
  obtain ⟨entries⟩ := c
  unfold setReferences find?
  induction entries with
  | nil => simp
  | cons entry entries ih =>
    obtain ⟨first, cached⟩ := entry
    by_cases hfirst : first = name
    · subst hfirst
      by_cases hother : other = first
      · subst hother
        simp
      · have hne : (other == first) = false := by simpa using hother
        simpa [List.lookup_cons, hne, hother] using ih
    · by_cases hother : other = first
      · subst hother
        simp [hfirst]
      · have hne : (other == first) = false := by simpa using hother
        simpa [List.lookup_cons, hne, hfirst] using ih

theorem find?_filter_names (c : TextureCache) (name other : String) :
    (⟨c.entries.filter (·.1 != name)⟩ : TextureCache).find? other =
      if other = name then none else c.find? other := by
  obtain ⟨entries⟩ := c
  unfold find?
  induction entries with
  | nil => simp
  | cons entry entries ih =>
    obtain ⟨first, cached⟩ := entry
    by_cases hfirst : first = name
    · subst hfirst
      simp only [List.filter_cons, bne_self_eq_false, Bool.false_eq_true, if_false, ih, List.lookup_cons]
      by_cases hother : other = first
      · simp [hother]
      · have hne : (other == first) = false := by simpa using hother
        simp [hne, hother]
    · have hkept : (first != name) = true := by simpa using hfirst
      simp only [List.filter_cons, hkept, if_true, List.lookup_cons, ih]
      by_cases hother : other = first
      · subst hother
        simp [hfirst]
      · have hne : (other == first) = false := by simpa using hother
        simp [hne]

/-! ## Calls -/

/-- The cache after it has loaded a texture. -/
def withLoaded (c : TextureCache) (name : String) (t : Texture) (width height : UInt32) : TextureCache :=
  ⟨c.entries ++ [(name, ⟨t, width, height, 1⟩)]⟩

/-- A request finds the name loaded, fails and leaves everything alone, or loads the next texture. -/
theorem request_eq_ok {picture : Option Picture} {answer : Except Fault Texture} {c' : TextureCache}
    {r' : Recorder} (h : c.request r name picture = .ok (answer, c', r')) :
    (∃ cached, c.find? name = some cached ∧ answer = .ok cached.texture ∧
      c' = c.setReferences name (cached.references + 1) ∧ r' = r) ∨
    c.find? name = none ∧
      ((∃ fault, answer = .error fault ∧ c' = c ∧ r' = r) ∨
        ∃ width height : UInt32, answer = .ok ⟨r.created + 1⟩ ∧
          c' = c.withLoaded name ⟨r.created + 1⟩ width height ∧
          r' = r.withNext width.toNat height.toNat) := by
  cases hfound : c.find? name with
  | some cached =>
    simp only [request, retain, hfound, pure, Except.pure, Except.ok.injEq, Prod.mk.injEq] at h
    obtain ⟨rfl, rfl, rfl⟩ := h
    exact .inl ⟨cached, rfl, rfl, rfl, rfl⟩
  | none =>
    refine .inr ⟨rfl, ?_⟩
    simp only [request, retain, hfound] at h
    cases picture with
    | none =>
      simp only [pure, Except.pure, Except.ok.injEq, Prod.mk.injEq] at h
      obtain ⟨rfl, rfl, rfl⟩ := h
      exact .inl ⟨_, rfl, rfl, rfl⟩
    | some picture =>
      obtain ⟨⟨made, device⟩, hmade, h⟩ := bind_eq_ok.mp h
      simp only [Recorder.createTexture, bind_eq_ok] at hmade
      obtain ⟨expected, -, hmade⟩ := hmade
      split at hmade
      · cases hmade
        cases h
        exact .inl ⟨_, rfl, rfl, rfl⟩
      · cases hmade
        cases h
        exact .inr ⟨picture.width, picture.height, rfl, rfl, rfl⟩

@[simp]
theorem names_setReferences (c : TextureCache) (name : String) (references : Nat) :
    (c.setReferences name references).names = c.names := by
  simp only [names, setReferences, List.map_map]
  exact List.map_congr_left fun entry _ ↦ by simp only [Function.comp_apply]; split <;> rfl

@[simp]
theorem textures_setReferences (c : TextureCache) (name : String) (references : Nat) :
    (c.setReferences name references).textures = c.textures := by
  simp only [textures, setReferences, List.map_map]
  exact List.map_congr_left fun entry _ ↦ by simp only [Function.comp_apply]; split <;> rfl

theorem find?_withLoaded (hnone : c.find? name = none) (width height : UInt32) (other : String) :
    (c.withLoaded name t width height).find? other =
      if other = name then some ⟨t, width, height, 1⟩ else c.find? other := by
  unfold withLoaded find?
  rw [List.lookup_append]
  by_cases hother : other = name
  · subst hother
    rw [show c.entries.lookup other = none from hnone]
    simp
  · have hne : (other == name) = false := by simpa using hother
    simp [List.lookup_cons, hne, hother]

/-! ## The cache and its device agree -/

/-- Every name has one entry with a reference at least, and the textures alive are those in the cache. -/
structure InStep (c : TextureCache) (r : Recorder) : Prop where
  names_nodup : c.names.Nodup
  references_pos : ∀ name cached, c.find? name = some cached → 0 < cached.references
  live : r.live = c.textures.reverse
  balanced : r.Balanced

namespace InStep

theorem fresh : TextureCache.empty.InStep .fresh where
  names_nodup := List.nodup_nil
  references_pos _ _ hfound := by cases hfound
  live := rfl
  balanced := .fresh

variable (h : c.InStep r)
include h

theorem textures_nodup : c.textures.Nodup := by
  rw [← List.nodup_reverse, ← h.live]
  exact h.balanced.nodup_live

theorem setReferences {references : Nat} (hpos : 0 < references) :
    (c.setReferences name references).InStep r where
  names_nodup := by simpa using h.names_nodup
  references_pos other cached hfound := by
    rw [find?_setReferences] at hfound
    split at hfound
    · obtain ⟨old, -, rfl⟩ := Option.map_eq_some_iff.mp hfound
      exact hpos
    · exact h.references_pos other cached hfound
  live := by simpa using h.live
  balanced := h.balanced

theorem load (hnone : c.find? name = none) (width height : UInt32) :
    (c.withLoaded name ⟨r.created + 1⟩ width height).InStep (r.withNext width.toNat height.toNat) where
  names_nodup := by
    have hfresh : name ∉ c.names := by
      intro hname
      obtain ⟨entry, hentry, rfl⟩ := List.mem_map.mp hname
      rw [find?_of_mem h.names_nodup hentry] at hnone
      cases hnone
    simp only [names, withLoaded, List.map_append, List.map_cons, List.map_nil]
    exact List.nodup_append.mpr ⟨h.names_nodup, by simp, by
      intro other hother last hlast heq
      rw [List.mem_singleton] at hlast
      exact hfresh (hlast ▸ heq ▸ hother)⟩
  references_pos other cached hfound := by
    rw [find?_withLoaded hnone] at hfound
    split at hfound
    · cases hfound
      exact Nat.one_pos
    · exact h.references_pos other cached hfound
  live := by
    have hlive : r.live = (c.entries.map fun entry ↦ entry.2.texture).reverse := h.live
    simp [Recorder.withNext, Recorder.record, textures, withLoaded, hlive]
  balanced := h.balanced.create width.toNat height.toNat

/-- Dropping the entry of a name drops its texture and no other one. -/
theorem drop {cached : CachedTexture} (hfound : c.find? name = some cached) :
    (⟨c.entries.filter (·.1 != name)⟩ : TextureCache).InStep (r.releaseTexture cached.texture) where
  names_nodup := by
    have hsub : ((c.entries.filter (·.1 != name)).map Prod.fst).Sublist c.names :=
      List.filter_sublist.map Prod.fst
    exact hsub.nodup h.names_nodup
  references_pos other found hother := by
    rw [find?_filter_names] at hother
    split at hother
    · cases hother
    · exact h.references_pos other found hother
  live := by
    -- Entries are dropped by name and textures by number. Both single out the same entry.
    have hsame : ∀ entry ∈ c.entries, (entry.2.texture != cached.texture) = (entry.1 != name) := by
      intro entry hentry
      rw [Bool.eq_iff_iff, bne_iff_ne, bne_iff_ne, not_iff_not]
      constructor
      · intro htexture
        have heq := List.inj_on_of_nodup_map h.textures_nodup hentry (mem_of_find? hfound) htexture
        rw [heq]
      · intro hname
        have hcached := find?_of_mem h.names_nodup hentry
        rw [hname, hfound] at hcached
        rw [Option.some.inj hcached]
    change r.live.filter (· != cached.texture) = _
    rw [h.live, textures, textures, List.filter_reverse, List.filter_map]
    congr 2
    exact List.filter_congr hsame
  balanced := by
    apply h.balanced.release
    rw [h.live, List.mem_reverse]
    exact List.mem_map_of_mem (mem_of_find? hfound)

/-- Releasing everything leaves no texture alive. -/
theorem releaseAll : (c.releaseAll r).1.InStep (c.releaseAll r).2 ∧
    ∀ t, (c.releaseAll r).2.Created t ↔ r.Created t := by
  have hfold : (c.releaseAll r).2 = c.textures.foldl Recorder.releaseTexture r :=
    (List.foldl_map).symm
  have hlive : ∀ t ∈ c.textures, t ∈ r.live := fun t ht ↦ by rwa [h.live, List.mem_reverse]
  obtain ⟨hbalanced, hleft, hcreated⟩ := h.balanced.releaseEach h.textures_nodup hlive
  rw [hfold]
  refine ⟨⟨List.nodup_nil, fun name cached hfound ↦ ?_, ?_, hbalanced⟩, hcreated⟩
  · cases hfound
  · refine List.eq_nil_iff_forall_not_mem.mpr fun t ht ↦ ?_
    obtain ⟨hold, hout⟩ := (hleft t).mp ht
    rw [h.live, List.mem_reverse] at hold
    exact hout hold

end InStep

end TextureCache

end RetainedUi
