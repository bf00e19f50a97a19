import Mathlib.Data.List.Count
import Mathlib.Data.List.Nodup
import RetainedUi.Device.Recorder

/-!
# Textures alive on a device

A device numbers its textures in the order of their creation. As long as only textures that are alive are
released, every texture that was ever created is either alive or was released, once, and no other texture is.
-/

namespace RetainedUi

namespace Recorder

variable {r : Recorder} {t : Texture}

/-- Whether a device was ever asked for a texture with the answer given. -/
def Created (r : Recorder) (t : Texture) : Prop :=
  ∃ width height, DeviceCall.createTexture t width height ∈ r.log

/-- How often a device was asked to release a texture. -/
def releases (r : Recorder) (t : Texture) : Nat := r.log.count (.releaseTexture t)

/-- The device after it has created its next texture. -/
def withNext (r : Recorder) (width height : Nat) : Recorder :=
  { r with created := r.created + 1, live := ⟨r.created + 1⟩ :: r.live }.record
    (.createTexture ⟨r.created + 1⟩ width height)

/-- Every texture that was created is either alive or was released once, and no other texture is alive or
was released. -/
structure Balanced (r : Recorder) : Prop where
  created_iff : ∀ t, r.Created t ↔ 0 < t.number ∧ t.number ≤ r.created
  once : ∀ t, r.Created t → r.releases t + r.live.count t = 1
  never : ∀ t, ¬ r.Created t → r.releases t + r.live.count t = 0

theorem created_releaseTexture_iff {u : Texture} : (r.releaseTexture t).Created u ↔ r.Created u := by
  simp [Created, releaseTexture, record]

namespace Balanced

theorem fresh : Recorder.fresh.Balanced where
  created_iff t := by
    simp only [Created, Recorder.fresh, withLog, Array.not_mem_empty, exists_const, false_iff]
    omega
  once t hcreated := by simp [Created, Recorder.fresh, withLog] at hcreated
  never t _ := by simp [releases, Recorder.fresh, withLog]

variable (h : r.Balanced)
include h

theorem releases_le_one (t : Texture) : r.releases t ≤ 1 := by
  by_cases hcreated : r.Created t
  · have hbalance := h.once t hcreated
    omega
  · have hbalance := h.never t hcreated
    omega

theorem nodup_live : r.live.Nodup := by
  refine List.nodup_iff_count_le_one.mpr fun t ↦ ?_
  by_cases hcreated : r.Created t
  · have hbalance := h.once t hcreated
    omega
  · have hbalance := h.never t hcreated
    omega

/-- A texture that was created and is not alive was released. -/
theorem releases_eq_one (hcreated : r.Created t) (hlive : t ∉ r.live) : r.releases t = 1 := by
  have hbalance := h.once t hcreated
  rwa [List.count_eq_zero_of_not_mem hlive, Nat.add_zero] at hbalance

theorem create (width height : Nat) : (r.withNext width height).Balanced := by
  have hcreated (t : Texture) : (r.withNext width height).Created t ↔ r.Created t ∨ t = ⟨r.created + 1⟩ := by
    simp [Created, withNext, record, exists_or]
  have hnew : ¬ r.Created ⟨r.created + 1⟩ := by
    rw [h.created_iff]
    simp
  constructor
  · intro t
    rw [hcreated, h.created_iff]
    obtain ⟨number⟩ := t
    simp only [withNext, record, Texture.mk.injEq]
    omega
  · intro t ht
    simp only [releases, withNext, record, Array.count_push, List.count_cons, beq_iff_eq, reduceCtorEq,
      if_false]
    rcases (hcreated t).mp ht with hold | rfl
    · have hne : (⟨r.created + 1⟩ : Texture) ≠ t := fun heq ↦ hnew (heq ▸ hold)
      rw [if_neg hne]
      exact h.once t hold
    · have hbalance : r.log.count _ + _ = 0 := h.never _ hnew
      rw [if_pos rfl]
      omega
  · intro t ht
    rw [hcreated, not_or] at ht
    simp only [releases, withNext, record, Array.count_push, List.count_cons, beq_iff_eq, reduceCtorEq,
      if_false]
    rw [if_neg (Ne.symm ht.2)]
    exact h.never t ht.1

theorem release (hlive : t ∈ r.live) : (r.releaseTexture t).Balanced := by
  have hcreated (u : Texture) : (r.releaseTexture t).Created u ↔ r.Created u := created_releaseTexture_iff
  have hsum (u : Texture) : (r.releaseTexture t).releases u + (r.releaseTexture t).live.count u =
      r.releases u + r.live.count u := by
    simp only [releases, releaseTexture, record, Array.count_push, beq_iff_eq,
      DeviceCall.releaseTexture.injEq]
    by_cases hsame : t = u
    · subst hsame
      rw [List.count_eq_zero_of_not_mem (by simp), List.count_eq_one_of_mem h.nodup_live hlive, if_pos rfl]
    · rw [List.count_filter (by simpa using Ne.symm hsame), if_neg hsame, Nat.add_zero]
  constructor
  · exact fun u ↦ (hcreated u).trans (h.created_iff u)
  · exact fun u hu ↦ (hsum u).trans (h.once u ((hcreated u).mp hu))
  · exact fun u hu ↦ (hsum u).trans (h.never u fun hold ↦ hu ((hcreated u).mpr hold))

/-- Textures that are alive are released one after the other. -/
theorem releaseEach {ts : List Texture} (hnodup : ts.Nodup) (hlive : ∀ t ∈ ts, t ∈ r.live) :
    (ts.foldl releaseTexture r).Balanced ∧
      (∀ t, t ∈ (ts.foldl releaseTexture r).live ↔ t ∈ r.live ∧ t ∉ ts) ∧
      ∀ t, (ts.foldl releaseTexture r).Created t ↔ r.Created t := by
  induction ts generalizing r with
  | nil => exact ⟨h, by simp, fun t ↦ .rfl⟩
  | cons t ts ih =>
    obtain ⟨hfresh, hnodup⟩ := List.nodup_cons.mp hnodup
    obtain ⟨hfirst, hlive⟩ := List.forall_mem_cons.mp hlive
    have hrest : ∀ u ∈ ts, u ∈ (r.releaseTexture t).live := by
      intro u hu
      have hne : u ≠ t := fun heq ↦ hfresh (heq ▸ hu)
      simpa [releaseTexture, record, hne] using hlive u hu
    obtain ⟨hbalanced, hleft, hcreated⟩ := ih (h.release hfirst) hnodup hrest
    refine ⟨hbalanced, fun u ↦ (hleft u).trans ?_, fun u ↦ (hcreated u).trans created_releaseTexture_iff⟩
    simp [releaseTexture, record, and_assoc]

end Balanced

end Recorder

end RetainedUi
