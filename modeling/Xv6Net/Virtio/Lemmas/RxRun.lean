import Xv6Net.Virtio.Lemmas.RxInit

/-!
# Whole runs of the receive queue
-/

namespace Xv6Net.Virtio

open Kernel Lib

variable {desc : Nat → VirtqDesc} {s t : RxSys}

/-! ## Counters in every run

Unlike `RxInv` these facts do not depend on how many packets there were. -/

/-- The driver counts what it handled, exactly; the device counts what it pushed, modulo 2^16. -/
structure RxCount (s : RxSys) : Prop where
  next_used : s.nextUsed = s.handleLog.length
  used_idx : s.q.deviceArea.idx = .ofNat s.pushLog.length

theorem driverStep_pushLog (s : RxSys) : (driverStep s).pushLog = s.pushLog := by
  unfold driverStep; split <;> (try split) <;> rfl

theorem RxCount.driver (h : RxCount s) : RxCount (driverStep s) := by
  obtain ⟨h1, h2⟩ := h
  unfold driverStep
  split
  · rename_i hpc; exact ⟨by simpa [RxSys.nextUsed, hpc] using h1, h2⟩
  · rename_i hpc
    split
    · exact ⟨by simpa [RxSys.nextUsed, hpc] using h1, h2⟩
    · exact ⟨by simpa [RxSys.nextUsed, hpc] using h1, h2⟩
  · rename_i hpc; exact ⟨by simpa [RxSys.nextUsed, hpc] using h1, h2⟩
  · rename_i hpc; exact ⟨by simpa [RxSys.nextUsed, hpc, Virtq.setAvail] using h1, h2⟩
  · rename_i hpc; exact ⟨by simpa [RxSys.nextUsed, hpc, Virtq.bumpAvail] using h1, h2⟩

theorem RxCount.step {a : RxAct} (h : RxCount s) (hs : rxStep s a = some t) : RxCount t := by
  cases a with
  | driver => cases hs; exact h.driver
  | take =>
      simp only [rxStep] at hs
      split at hs
      · cases hs
      · cases hs; exact ⟨h.next_used, h.used_idx⟩
  | write head bytes =>
      simp only [rxStep] at hs
      split at hs
      · cases hs; exact ⟨h.next_used, h.used_idx⟩
      · cases hs
  | push head len =>
      simp only [rxStep] at hs
      split at hs
      · cases hs
        refine ⟨h.next_used, ?_⟩
        simp only [Virtq.pushUsed, h.used_idx, ofNat_succ16, List.length_append, List.length_singleton]
      · cases hs

theorem rxStep_pushLog {a : RxAct} (hs : rxStep s a = some t) : s.pushLog.length ≤ t.pushLog.length := by
  cases a with
  | driver => cases hs; rw [driverStep_pushLog]
  | take => simp only [rxStep] at hs; split at hs <;> cases hs; exact Nat.le_refl _
  | write head bytes => simp only [rxStep] at hs; split at hs <;> cases hs; exact Nat.le_refl _
  | push head len => simp only [rxStep] at hs; split at hs <;> cases hs; simp

theorem RxInv.of_run {as : List RxAct} (h : RxInv desc s)
    (hr : run rxStep s as = some t) (hp : t.pushLog.length < 65536) : RxInv desc t := by
  refine run_keeps' (I := fun u => u.pushLog.length < 65536 → RxInv desc u) ?_ (fun _ => h) hr hp
  intro u a v hu hs hv
  have hle := rxStep_pushLog hs
  exact (hu (by omega)).step (by omega) hs

theorem RxInv.count (h : RxInv desc s) : RxCount s :=
  ⟨h.next_used, h.used_idx⟩

/-! ## `receive_packet` returns -/

end Xv6Net.Virtio
