import Mathlib.Data.List.Chain
import RetainedUi.Paint.Batch

/-!
# Ledgers of buffers

A ledger tells all that there is to know about one of the buffers in which a painter keeps its data on a device: the
size that the painter remembers, what the device has in the buffer, and what the device was asked to do with it, that
is, which sizes were allocated and what was uploaded.

Data is stored in two steps. The first one makes room: if the data is larger than the buffer, a new buffer is
allocated, twice as large as the old one or as large as the data. The second one uploads the data. If a ledger is
sound before, the data fits then, and the ledger is sound again. In between the buffer can be larger than what was
uploaded so far accounts for, so soundness is a property of whole stores.
-/

namespace RetainedUi

/-- The size of the buffer that a call allocates, if it allocates one of a kind. -/
def DeviceCall.allocation? (kind : BufferKind) : DeviceCall → Option Nat
  | allocate allocated size => if allocated = kind then some size else none
  | _ => none

/-- The data that a call uploads to the buffer of a kind, and the place where it goes. -/
def DeviceCall.upload? (kind : BufferKind) : DeviceCall → Option (Nat × ByteArray)
  | upload uploaded offset data => if uploaded = kind then some (offset, data) else none
  | _ => none

/-- What there is to know about one buffer. -/
structure Ledger where
  /-- The size that the painter remembers. -/
  size : Nat
  contents : ByteArray
  /-- The sizes that were allocated, the last one at the end. -/
  allocations : List Nat
  /-- The data that was uploaded, each with its place in the buffer. -/
  uploads : List (Nat × ByteArray)

namespace Ledger

/-- The size of the largest data that was uploaded. -/
def largest (l : Ledger) : Nat := (l.uploads.map fun upload ↦ upload.2.size).foldl max 0

/-- A new buffer. -/
def renew (l : Ledger) (size : Nat) : Ledger :=
  { l with size, contents := Recorder.zeros size, allocations := l.allocations ++ [size] }

/-- Makes room for data of some size. -/
def ensure (l : Ledger) (needed : Nat) : Ledger :=
  if Batch.grownRoom l.size needed = l.size then l else l.renew (Batch.grownRoom l.size needed)

/-- Uploads data to the start of the buffer, or drops it if it is too large. -/
def write (l : Ledger) (data : ByteArray) : Ledger :=
  if l.contents.size < 0 + data.size then l
  else { l with contents := data.copySlice 0 l.contents 0 data.size, uploads := l.uploads ++ [(0, data)] }

/-- Stores data. -/
def store (l : Ledger) (data : ByteArray) : Ledger := (l.ensure data.size).write data

/-- The buffer is as large as the painter remembers, which is what was allocated last, and every allocation was at
least twice as large as the one before. -/
structure Steady (l : Ledger) : Prop where
  size : l.contents.size = l.size
  allocated : l.allocations.getLast?.getD 0 = l.size
  doubles : l.allocations.IsChain fun size next ↦ 2 * size ≤ next

/-- The buffer is not larger either than twice the largest data. -/
structure Sound (l : Ledger) : Prop extends Steady l where
  bounded : l.size ≤ 2 * l.largest

/-- Data is what was uploaded last, and it stands at the start of the buffer. -/
structure Holds (l : Ledger) (data : ByteArray) : Prop where
  uploaded : l.uploads.getLast? = some (0, data)
  contents : l.contents.extract 0 data.size = data

theorem size_zeros (size : Nat) : (Recorder.zeros size).size = size := by
  have hfold (size : Nat) (bytes : ByteArray) :
      (size.fold (fun _ _ bytes ↦ bytes.push 0) bytes).size = bytes.size + size := by
    induction size with
    | zero => rfl
    | succ size ih => rw [Nat.fold_succ, ByteArray.size_push, ih, Nat.add_assoc]
  exact (hfold size _).trans (Nat.zero_add size)

/-! ## Making room -/

variable {l : Ledger}

theorem ensure_of_le {needed : Nat} (h : needed ≤ l.size) : l.ensure needed = l := if_pos (if_pos h)

theorem ensure_of_lt {needed : Nat} (h : l.size < needed) : l.ensure needed = l.renew (max needed (l.size * 2)) := by
  have hgrown : Batch.grownRoom l.size needed = max needed (l.size * 2) := if_neg (Nat.not_le_of_lt h)
  rw [ensure, hgrown, if_neg]
  omega

/-- There is room afterwards. -/
theorem le_size_ensure (l : Ledger) (needed : Nat) : needed ≤ (l.ensure needed).size := by
  rcases Nat.lt_or_ge l.size needed with hlt | hle
  · rw [ensure_of_lt hlt]
    exact Nat.le_max_left _ _
  · rw [ensure_of_le hle]
    exact hle

/-- The buffer grows if it changes, and not by more than is needed or as much as it was. -/
theorem size_ensure (l : Ledger) (needed : Nat) :
    l.size ≤ (l.ensure needed).size ∧ (l.ensure needed).size ≤ max l.size (2 * needed) := by
  rcases Nat.lt_or_ge l.size needed with hlt | hle
  · rw [ensure_of_lt hlt]
    change l.size ≤ max needed (l.size * 2) ∧ max needed (l.size * 2) ≤ _
    omega
  · rw [ensure_of_le hle]
    exact ⟨Nat.le_refl _, Nat.le_max_left _ _⟩

theorem uploads_ensure (l : Ledger) (needed : Nat) : (l.ensure needed).uploads = l.uploads := by
  unfold ensure
  split <;> rfl

theorem Steady.ensure (h : l.Steady) (needed : Nat) : (l.ensure needed).Steady := by
  rcases Nat.lt_or_ge l.size needed with hlt | hle
  · rw [ensure_of_lt hlt]
    constructor
    · exact size_zeros _
    · exact congrArg (Option.getD · 0) List.getLast?_concat
    · refine List.isChain_append.mpr ⟨h.doubles, .singleton _, fun size hsize next hnext ↦ ?_⟩
      have hallocated : l.allocations.getLast?.getD 0 = l.size := h.allocated
      rw [Option.mem_def.mp hsize] at hallocated
      cases hnext
      change size = l.size at hallocated
      omega
  · rw [ensure_of_le hle]
    exact h

/-! ## Uploading -/

variable {data : ByteArray}

theorem write_of_le (h : data.size ≤ l.contents.size) :
    l.write data = { l with
      contents := data.copySlice 0 l.contents 0 data.size, uploads := l.uploads ++ [(0, data)] } := by
  rw [write, Nat.zero_add]
  exact if_neg (Nat.not_lt_of_le h)

theorem largest_write (h : data.size ≤ l.contents.size) : (l.write data).largest = max l.largest data.size := by
  rw [write_of_le h, largest, List.map_append, List.foldl_append]
  rfl

theorem copySlice_zero_eq (data contents : ByteArray) :
    data.copySlice 0 contents 0 data.size = data ++ contents.extract data.size contents.size := by
  rw [ByteArray.copySlice_eq_append]
  simp

/-- Data that fits is held afterwards. -/
theorem holds_write (h : data.size ≤ l.contents.size) : (l.write data).Holds data := by
  rw [write_of_le h]
  constructor
  · exact List.getLast?_concat
  · change (data.copySlice 0 l.contents 0 data.size).extract 0 data.size = data
    rw [copySlice_zero_eq, ByteArray.extract_append_size_left, ByteArray.extract_zero_size]

theorem Steady.write (hl : l.Steady) (h : data.size ≤ l.contents.size) : (l.write data).Steady := by
  rw [write_of_le h]
  refine ⟨?_, hl.allocated, hl.doubles⟩
  change (data.copySlice 0 l.contents 0 data.size).size = l.size
  rw [copySlice_zero_eq, ByteArray.size_append, ByteArray.size_extract, ← hl.size]
  omega

/-! ## Storing -/

/-- Data fits after room was made for it. -/
theorem Steady.fits (h : l.Steady) (data : ByteArray) : data.size ≤ (l.ensure data.size).contents.size := by
  rw [(h.ensure data.size).size]
  exact l.le_size_ensure data.size

theorem Steady.store_eq (h : l.Steady) (data : ByteArray) : l.store data = { l.ensure data.size with
    contents := data.copySlice 0 (l.ensure data.size).contents 0 data.size, uploads := l.uploads ++ [(0, data)] } := by
  rw [store, write_of_le (h.fits data), uploads_ensure]

theorem Steady.holds_store (h : l.Steady) (data : ByteArray) : (l.store data).Holds data :=
  holds_write (h.fits data)

theorem Steady.size_le_store (h : l.Steady) (data : ByteArray) : l.size ≤ (l.store data).size := by
  rw [h.store_eq data]
  exact (l.size_ensure data.size).1

theorem Sound.store (h : l.Sound) (data : ByteArray) : (l.store data).Sound where
  toSteady := (h.toSteady.ensure data.size).write (h.toSteady.fits data)
  bounded := by
    have hlargest : (l.store data).largest = max l.largest data.size := by
      rw [Ledger.store, largest_write (h.toSteady.fits data), largest, uploads_ensure, largest]
    have hsize := (l.size_ensure data.size).2
    have hbounded := h.bounded
    rw [hlargest, h.toSteady.store_eq data]
    change (l.ensure data.size).size ≤ _
    omega

end Ledger

end RetainedUi
