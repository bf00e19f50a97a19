import RetainedUi.Proofs.Desktop.Convergence

/-!
# Ticks that end at a fault

The windows have their turns to be laid out and presented one after the other, and a fault ends all of them. The
windows before are idle by then, and those behind are as they were before the first turn.

What becomes of the window in between depends on what its device refused. That a device cannot be bound is found out
before anything is taken, so the window is still to be painted. If an allocation or the swap was refused, the pending
region of the root is gone, and nothing says to paint it again.
-/

namespace RetainedUi

variable {W D A : Type}

namespace Desktop

variable {d e : Desktop W D A} {fault : Fault}

section

variable {program : Program W D A} (hquiet : program.Quiet) {steps : Nat}
include hquiet

/-- The windows before a fault are idle, and those behind it have not changed. -/
theorem presentWindows_at_fault (hd : d.Registered) (hready : ∀ w ∈ d.windows, w.forest.WellFormed ∧ w.queue = [])
    {ids : List WindowId} (hids : ids ⊆ d.windowIds) (hnodup : ids.Nodup)
    (h : presentWindows program steps ids d = .ok (.error fault) e) :
    Keeps d e ∧ ∃ done id left, ids = done ++ id :: left ∧ ∀ w ∈ e.windows,
      (w.id ∈ done → w.Idle) ∧ (w.id = id → w.LeftBy d.platform.outage (.error fault)) ∧
        (w.id ∉ done ++ [id] → w ∈ d.windows) := by
  induction ids generalizing d with
  | nil => cases h
  | cons first ids ih =>
    obtain ⟨hid, hrest⟩ := List.cons_subset.mp hids
    obtain ⟨hout, hnodup⟩ := List.nodup_cons.mp hnodup
    rw [presentWindows, Pass.bind_get] at h
    obtain ⟨found, mid, hrun, hlater⟩ := Pass.bind_eq_ok.mp h
    obtain ⟨hkeeps, answer, rfl, hmid⟩ := presentWindow_ok hquiet hd hready hid hrun
    cases answer with
    | error fault =>
      cases hlater
      refine ⟨hkeeps, [], first, ids, rfl, fun w hw ↦ ⟨by simp, fun hsame ↦ ?_, fun hbehind ↦ ?_⟩⟩
      · exact ((hmid w hw).2.resolve_right fun hother ↦ hother.1 hsame).2
      · exact ((hmid w hw).2.resolve_left fun hfirst ↦ hbehind (by simp [hfirst.1])).2
    | ok _ =>
      obtain ⟨hlast, done, id, left, rfl, hcases⟩ := ih (hkeeps.registered hd) (fun w hw ↦ (hmid w hw).1)
        (hkeeps.windowIds ▸ hrest) hnodup hlater
      refine ⟨trans_of Keeps hkeeps hlast, first :: done, id, left, rfl, fun w hw ↦ ?_⟩
      obtain ⟨hdone, hfault, hbehind⟩ := hcases w hw
      refine ⟨fun hmem ↦ ?_, hkeeps.outage ▸ hfault, fun hmem ↦ ?_⟩
      · rcases List.mem_cons.mp hmem with hsame | hmem
        · have hlater : w.id ∉ done ++ [id] := fun hmem ↦
            hout (List.append_cons done id left ▸ List.mem_append_left left (hsame ▸ hmem))
          have hfirst : w ∈ mid.windows := hbehind hlater
          exact ((hmid w hfirst).2.resolve_right fun hother ↦ hother.1 hsame).2
        · exact hdone hmem
      · rw [List.cons_append, List.mem_cons, not_or] at hmem
        exact ((hmid w (hbehind hmem.2)).2.resolve_left fun hfirst ↦ hmem.1 hfirst.1).2

end

/-- A quiet tick that ends at a fault leaves the windows idle that had their turn before, and those behind as they
were before the first turn. The window in between is still to be painted if its device could not be bound. If an
allocation or the swap was refused, it is idle like the others, and what was pending in its root is lost. -/
theorem tick_at_fault {program : Program W D A} (hquiet : program.Quiet) {steps : Nat} (hd : d.Registered)
    (hwell : ∀ w ∈ d.windows, w.forest.WellFormed) (hnone : d.deferred = [])
    (htick : tick program steps d = .ok (.error fault) e) :
    ∃ ready done id left, getReady program steps d = .ok () ready ∧ e.windowIds = d.windowIds ∧
      e.windowIds = done ++ id :: left ∧
      (∀ w ∈ e.windows, w.id ∈ done → w.Idle) ∧
      (∀ w ∈ e.windows, w.id = id → w.LeftBy d.platform.outage (.error fault)) ∧
      (∀ w ∈ e.windows, w.id ∈ left → w ∈ ready.windows) ∧
      (e.hasPendingWork = .ok false ↔
        d.platform.outage.bind = none ∧ ∀ w ∈ e.windows, w.id ∈ left → w.Idle) := by
  rw [tick_eq] at htick
  obtain ⟨_, ready, hready, h⟩ := Pass.bind_eq_ok.mp htick
  rw [Pass.bind_get] at h
  obtain ⟨answer, shown, hpresent, h⟩ := Pass.bind_eq_ok.mp h
  cases answer with
  | ok _ =>
    obtain ⟨_, swept, -, hpure⟩ := Pass.bind_eq_ok.mp h
    cases hpure
  | error fault =>
    cases h
    have hsent := ready_of_getReady hquiet hd hwell hnone hready
    obtain ⟨hkeeps, done, id, left, hids, hcases⟩ := presentWindows_at_fault hquiet hsent.registered hsent.windows
      (List.Subset.refl _) hsent.registered.windows_nodup hpresent
    have hall : e.windowIds = done ++ id :: left := hkeeps.windowIds.trans hids
    have hbehind : (done ++ [id]).Disjoint left :=
      List.disjoint_of_nodup_append (List.append_cons done id left ▸ hids ▸ hsent.registered.windows_nodup)
    have hleft : ∀ w ∈ e.windows, w.id = id → w.LeftBy d.platform.outage (.error fault) :=
      fun w hw hid ↦ hsent.outage ▸ (hcases w hw).2.1 hid
    refine ⟨ready, done, id, left, hready, hkeeps.windowIds.trans hsent.windowIds, hall, fun w hw ↦ (hcases w hw).1,
      hleft, fun w hw hid ↦ (hcases w hw).2.2 fun hmem ↦ hbehind hmem hid, ?_⟩
    rw [hasPendingWork_eq_false_iff]
    have hmem : id ∈ e.windowIds := by simp [hall]
    obtain ⟨w, hw, hid⟩ := List.mem_map.mp hmem
    constructor
    · rintro ⟨-, hidle⟩
      refine ⟨?_, fun w hw _ ↦ hidle w hw⟩
      cases hbind : d.platform.outage.bind with
      | none => rfl
      | some reason =>
        have hunpainted := hleft w hw hid
        rw [Window.LeftBy, hbind] at hunpainted
        cases hunpainted.2.needsRedraw.symm.trans (hidle w hw).needsRedraw
    · rintro ⟨hbind, hrest⟩
      refine ⟨hkeeps.deferred.trans hsent.deferred, fun w hw ↦ ?_⟩
      have hmem : w.id ∈ done ++ id :: left := hall ▸ List.mem_map_of_mem hw
      rw [List.mem_append, List.mem_cons] at hmem
      rcases hmem with hdone | hid | hlater
      · exact (hcases w hw).1 hdone
      · have hidle := hleft w hw hid
        rwa [Window.LeftBy, hbind] at hidle
      · exact hrest w hw hlater

/-- Two windows are shown, and no frame can be swapped. -/
def unswapped : Desktop Unit Unit Unit :=
  let steps : Pass (Desktop Unit Unit Unit) Unit := do
    let _ ← openWindow ⟨"", .ofSides 0 0 100 100, true⟩
    let _ ← openWindow ⟨"", .ofSides 0 0 100 100, true⟩
    modify fun d ↦ { d with platform.outage.swap := some "lost" }
  Pass.final (steps (fresh ⟨4, 4⟩ ()))

/-- The first window has lost what was to be painted, and the second one has not. -/
example : fault? (tick growing 9 unswapped) = some (.gpu "lost") ∧
    (Pass.final (tick growing 9 unswapped)).windows.map Window.needsRedraw = [.ok false, .ok true] := by
  decide +kernel

end Desktop

end RetainedUi
