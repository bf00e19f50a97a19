import Mathlib.Algebra.Group.Nat.Defs
import RetainedUi.Proofs.Texture.Holdings

/-!
# Sizes of textures

A texture is created from four bytes for each of its points. How many bytes that makes has to be told by a word of
64 bits. As long as a word can tell it, the check of the data is exact: data of any other length is a fault, which
leaves the cache and the device as they were.

The largest widths and heights ask for more bytes than a word can tell. No data has that many, and still such a size
is no fault: it is a halt, which comes before the data is looked at.
-/

namespace RetainedUi

/-- Whether an answer is that of an exact check. There is a texture if and only if the data has as many bytes as are
wanted, and otherwise there is a fault of the device and nothing has changed. -/
def ChecksExactly {σ : Type} (answer : Except Halt (Except Fault Texture × σ)) (before : σ) (bytes wanted : Nat) :
    Prop :=
  ((∃ t after, answer = .ok (.ok t, after)) ↔ bytes = wanted) ∧
    (bytes ≠ wanted → ∃ reason, answer = .ok (.error (.gpu reason), before))

section

variable {σ : Type} {before after : σ} {bytes wanted : Nat}

theorem checksExactly_of_fit (hfit : bytes = wanted) (t : Texture) :
    ChecksExactly (.ok (.ok t, after)) before bytes wanted :=
  ⟨⟨fun _ ↦ hfit, fun _ ↦ ⟨t, after, rfl⟩⟩, fun hother ↦ absurd hfit hother⟩

theorem checksExactly_of_misfit (hmisfit : bytes ≠ wanted) (reason : String) :
    ChecksExactly (.ok (.error (.gpu reason), before)) before bytes wanted := by
  refine ⟨⟨?_, fun hfit ↦ absurd hfit hmisfit⟩, fun _ ↦ ⟨reason, rfl⟩⟩
  rintro ⟨t, after, hanswer⟩
  cases hanswer

/-- No check that halts is exact. It owes the texture or the fault. -/
theorem not_checksExactly_error {halt : Halt} : ¬ ChecksExactly (.error halt) before bytes wanted := by
  rintro ⟨hmade, hfault⟩
  have hother : bytes ≠ wanted := by
    rintro rfl
    obtain ⟨t, after, hanswer⟩ := hmade.mpr rfl
    cases hanswer
  obtain ⟨reason, hanswer⟩ := hfault hother
  cases hanswer

end

namespace Recorder

variable (r : Recorder) {width height : UInt32}

/-- The fault of data that has not as many bytes as its size asks for. -/
def missized (width height : UInt32) (bytes : Nat) : Fault :=
  .gpu ("expected " ++ toString (pictureBytes width height) ++ " bytes of RGBA data, got " ++ toString bytes)

theorem createTexture_of_counted (hcounted : pictureBytes width height ≤ Memory.largestCount) (bytes : Nat) :
    r.createTexture width height bytes =
      .ok (if bytes = pictureBytes width height then
          (.ok ⟨r.created + 1⟩, r.withNext width.toNat height.toNat)
        else (.error (missized width height bytes), r)) := by
  have hexpected : Memory.counted (pictureBytes width height) = .ok (pictureBytes width height) := if_pos hcounted
  simp only [createTexture, hexpected, bind, Except.bind]
  by_cases hbytes : bytes = pictureBytes width height
  · rw [if_pos hbytes, if_neg (not_not_intro hbytes)]
    rfl
  · rw [if_neg hbytes, if_pos hbytes]
    rfl

theorem createTexture_of_oversized (hoversized : Memory.largestCount < pictureBytes width height) (bytes : Nat) :
    r.createTexture width height bytes = .error (.oversized (pictureBytes width height)) := by
  have hexpected : Memory.counted (pictureBytes width height) =
      .error (.oversized (pictureBytes width height)) := if_neg (Nat.not_le_of_lt hoversized)
  simp only [createTexture, hexpected, bind, Except.bind]

theorem checksExactly_createTexture (hcounted : pictureBytes width height ≤ Memory.largestCount) (bytes : Nat) :
    ChecksExactly (r.createTexture width height bytes) r bytes (pictureBytes width height) := by
  rw [r.createTexture_of_counted hcounted]
  by_cases hbytes : bytes = pictureBytes width height
  · rw [if_pos hbytes]
    exact checksExactly_of_fit hbytes _
  · rw [if_neg hbytes]
    exact checksExactly_of_misfit hbytes _

end Recorder

namespace TextureCache

open Recorder

variable {c : TextureCache} {name : String}

/-- Of a name that is not loaded, the device decides about the request. -/
theorem request_of_missing (hnone : c.find? name = none) (r : Recorder) (picture : Picture) :
    c.request r name (some picture) =
      (r.createTexture picture.width picture.height picture.bytes).map fun
        | (.error fault, r) => (.error fault, c, r)
        | (.ok t, r) => (.ok t, c.withLoaded name t picture.width picture.height, r) := by
  simp only [request, retain, hnone, bind, Except.bind]
  cases r.createTexture picture.width picture.height picture.bytes with
  | error halt => rfl
  | ok made =>
    obtain ⟨answer, r⟩ := made
    cases answer <;> rfl

theorem checksExactly_request (hnone : c.find? name = none) {r : Recorder} {picture : Picture} {wanted : Nat}
    (h : ChecksExactly (r.createTexture picture.width picture.height picture.bytes) r picture.bytes wanted) :
    ChecksExactly (c.request r name (some picture)) (c, r) picture.bytes wanted := by
  obtain ⟨hmade, hfault⟩ := h
  rw [request_of_missing hnone]
  by_cases hbytes : picture.bytes = wanted
  · obtain ⟨t, after, hanswer⟩ := hmade.mpr hbytes
    rw [hanswer]
    exact checksExactly_of_fit hbytes _
  · obtain ⟨reason, hanswer⟩ := hfault hbytes
    rw [hanswer]
    exact checksExactly_of_misfit hbytes _

theorem request_of_oversized (hnone : c.find? name = none) (r : Recorder) {picture : Picture}
    (hoversized : Memory.largestCount < pictureBytes picture.width picture.height) :
    c.request r name (some picture) = .error (.oversized (pictureBytes picture.width picture.height)) := by
  rw [request_of_missing hnone, r.createTexture_of_oversized hoversized]
  rfl

/-- The size of a texture is checked exactly if and only if a word of 64 bits can tell the number of bytes that it
asks for, by the device as well as by a request of a name that is not loaded. Every larger size is a halt. -/
theorem request_checks_size_iff (hnone : c.find? name = none) (r : Recorder) (width height : UInt32) (bytes : Nat) :
    let wanted := 4 * width.toNat * height.toNat
    (ChecksExactly (r.createTexture width height bytes) r bytes wanted ↔ wanted < 2 ^ 64) ∧
      (ChecksExactly (c.request r name (some ⟨width, height, bytes⟩)) (c, r) bytes wanted ↔ wanted < 2 ^ 64) ∧
      (2 ^ 64 ≤ wanted → r.createTexture width height bytes = .error (.oversized wanted) ∧
        c.request r name (some ⟨width, height, bytes⟩) = .error (.oversized wanted)) := by
  intro wanted
  have hwanted : pictureBytes width height = wanted := by
    unfold pictureBytes wanted
    rw [Nat.mul_comm, Nat.mul_assoc]
  have hlimit : Memory.largestCount < wanted ↔ 2 ^ 64 ≤ wanted := by
    unfold Memory.largestCount
    omega
  rcases Nat.lt_or_ge wanted (2 ^ 64) with hfits | hexceeds
  · have hcounted : pictureBytes width height ≤ Memory.largestCount := by omega
    have hdevice := r.checksExactly_createTexture hcounted bytes
    rw [hwanted] at hdevice
    have hcache : ChecksExactly (c.request r name (some ⟨width, height, bytes⟩)) (c, r) bytes wanted :=
      checksExactly_request hnone hdevice
    exact ⟨iff_of_true hdevice hfits, iff_of_true hcache hfits, fun hexceeds ↦ absurd hfits (Nat.not_lt_of_ge hexceeds)⟩
  · have hoversized : Memory.largestCount < pictureBytes width height := by omega
    have hdevice := r.createTexture_of_oversized hoversized bytes
    have hcache : c.request r name (some ⟨width, height, bytes⟩) = .error (.oversized (pictureBytes width height)) :=
      request_of_oversized hnone r hoversized
    rw [hwanted] at hdevice hcache
    rw [hdevice, hcache]
    have hnever := Nat.not_lt_of_ge hexceeds
    exact ⟨iff_of_false not_checksExactly_error hnever, iff_of_false not_checksExactly_error hnever,
      fun _ ↦ ⟨rfl, rfl⟩⟩

/-- Of the greatest width, this is the greatest height at which the check is exact. -/
theorem request_checks_size_widest : TextureCache.empty.find? "atlas" = none ∧
    4 * 4294967295 * 1073741823 = 18446744052234715140 ∧
    ChecksExactly (TextureCache.empty.request .fresh "atlas" (some ⟨4294967295, 1073741823, 1⟩))
      (.empty, .fresh) 1 18446744052234715140 :=
  ⟨rfl, rfl, (request_checks_size_iff rfl .fresh 4294967295 1073741823 1).2.1.mpr (by decide)⟩

/-- A word that wraps around would tell that a square of this size asks for no bytes at all. -/
theorem request_halts_oversized : TextureCache.empty.find? "atlas" = none ∧
    TextureCache.empty.request .fresh "atlas" (some ⟨2147483648, 2147483648, 0⟩) =
      .error (.oversized 18446744073709551616) ∧
    ¬ ChecksExactly (TextureCache.empty.request .fresh "atlas" (some ⟨2147483648, 2147483648, 0⟩))
      (.empty, .fresh) 0 (4 * 2147483648 * 2147483648) := by
  have hhalt : TextureCache.empty.request .fresh "atlas" (some ⟨2147483648, 2147483648, 0⟩) =
      .error (.oversized 18446744073709551616) := request_of_oversized rfl .fresh (by decide)
  refine ⟨rfl, hhalt, ?_⟩
  rw [hhalt]
  exact not_checksExactly_error

end TextureCache

end RetainedUi
