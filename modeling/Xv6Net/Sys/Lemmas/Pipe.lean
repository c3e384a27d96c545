import Xv6Net.Sys.Pipe

/-!
# The pipe as a queue

As long as at most `PIPESIZE` bytes wait, storing a byte appends it to the queue, and taking one takes the first.
-/

namespace Xv6Net.Sys

open Lib

variable {pi : Pipe} {s : PipeSys} {killed : Nat → Bool} {copyin : Nat → Option UInt8} {copyout : Nat → Bool}
  {i left : Nat}

/-- No more bytes wait than there is room for. -/
def Pipe.Bounded (pi : Pipe) : Prop := (pi.nwrite - pi.nread).toNat ≤ PIPESIZE

theorem PIPESIZE_dvd : PIPESIZE ∣ 2 ^ 32 := by decide

theorem Pipe.buffered_eq_nil : pi.buffered = [] ↔ pi.nread = pi.nwrite := by
  constructor
  · intro h
    have hlen : (pi.nwrite - pi.nread).toNat = 0 := by simpa [Pipe.buffered, window] using h
    have hlt := pi.nread.toNat_lt
    have hlt' := pi.nwrite.toNat_lt
    apply UInt32.toNat_inj.mp
    rw [UInt32.toNat_sub] at hlen
    omega
  · intro h
    simp [Pipe.buffered, h]

/-! ## One byte -/

theorem Pipe.Bounded.lt_of_ne (h : pi.Bounded) (hne : pi.nwrite ≠ pi.nread + .ofNat PIPESIZE) :
    (pi.nwrite - pi.nread).toNat < PIPESIZE := by
  refine Nat.lt_of_le_of_ne h fun heq => hne ?_
  have hlt := pi.nread.toNat_lt
  have hlt' := pi.nwrite.toNat_lt
  apply UInt32.toNat_inj.mp
  simp only [UInt32.toNat_sub, UInt32.toNat_add, UInt32.toNat_ofNat', PIPESIZE] at heq ⊢
  omega

theorem Pipe.count_store (h : (pi.nwrite - pi.nread).toNat < PIPESIZE) :
    (pi.nwrite + 1 - pi.nread).toNat = (pi.nwrite - pi.nread).toNat + 1 := by
  have hlt := pi.nread.toNat_lt
  have hlt' := pi.nwrite.toNat_lt
  simp only [UInt32.toNat_sub, UInt32.toNat_add, UInt32.toNat_one, PIPESIZE] at h ⊢
  omega

theorem Pipe.store_spec (h : pi.Bounded) (hne : pi.nwrite ≠ pi.nread + .ofNat PIPESIZE) (ch : UInt8) :
    (pi.store ch).Bounded ∧ (pi.store ch).buffered = pi.buffered ++ [ch] := by
  have hlt := h.lt_of_ne hne
  have hcount := Pipe.count_store hlt
  refine ⟨?_, ?_⟩
  · simp only [Pipe.Bounded, Pipe.store, hcount]
    omega
  · -- the slot of the new byte is the one behind the last
    have hslot : pi.nwrite.toNat % PIPESIZE = (pi.nread.toNat + (pi.nwrite - pi.nread).toNat) % PIPESIZE := by
      have hlt := pi.nread.toNat_lt
      have hlt' := pi.nwrite.toNat_lt
      simp only [UInt32.toNat_sub, PIPESIZE]
      omega
    simp only [Pipe.buffered, Pipe.store, hcount, hslot]
    exact window_push pi.data pi.nread.toNat ch hlt

theorem Pipe.take_spec (h : pi.Bounded) (hne : pi.nread ≠ pi.nwrite) :
    ({ pi with nread := pi.nread + 1 } : Pipe).Bounded ∧
      pi.buffered = pi.data (pi.nread.toNat % PIPESIZE) :: ({ pi with nread := pi.nread + 1 } : Pipe).buffered := by
  have hcount : (pi.nwrite - pi.nread).toNat = (pi.nwrite - (pi.nread + 1)).toNat + 1 := by
    have hne : pi.nread.toNat ≠ pi.nwrite.toNat := fun he => hne (UInt32.toNat_inj.mp he)
    have hlt := pi.nread.toNat_lt
    have hlt' := pi.nwrite.toNat_lt
    simp only [UInt32.toNat_sub, UInt32.toNat_add, UInt32.toNat_one]
    omega
  refine ⟨?_, ?_⟩
  · simp only [Pipe.Bounded] at h ⊢
    omega
  · simp only [Pipe.buffered, hcount, window_succ]
    congr 1
    rw [UInt32.toNat_add, UInt32.toNat_one, window_mod _ _ _ PIPESIZE_dvd]

/-! ## The loops -/

/-- The loop of `pipewrite` appends the bytes it stores. -/
theorem pipewriteFrom_spec (killed : Nat → Bool) (copyin : Nat → Option UInt8) (i left : Nat) (h : pi.Bounded) :
    (pipewriteFrom killed copyin i left pi).2.Bounded ∧
      (pipewriteFrom killed copyin i left pi).2.buffered = pi.buffered ++ pipewritten killed copyin i left pi := by
  induction left generalizing i pi with
  | zero => exact ⟨h, by simp [pipewriteFrom, pipewritten]⟩
  | succ left ih =>
      simp only [pipewriteFrom, pipewritten]
      split
      · exact ⟨h, by simp⟩
      · split
        · exact ⟨h, by simp⟩
        · rename_i hfull
          cases copyin i with
          | none => exact ⟨h, by simp⟩
          | some ch =>
              obtain ⟨hb, hbuf⟩ := Pipe.store_spec h hfull ch
              obtain ⟨hb', hbuf'⟩ := ih (i + 1) hb
              refine ⟨hb', ?_⟩
              simp only [Pipe.store] at hbuf hbuf'
              simp [hbuf', hbuf, Pipe.store]

/-- The loop of `piperead` takes the first bytes. -/
theorem pipereadFrom_spec (h : pi.Bounded) :
    (pipereadFrom copyout i left pi).pipe.Bounded ∧
      pi.buffered = (pipereadFrom copyout i left pi).taken ++ (pipereadFrom copyout i left pi).pipe.buffered := by
  induction left generalizing i pi with
  | zero => exact ⟨h, by simp [pipereadFrom]⟩
  | succ left ih =>
      simp only [pipereadFrom]
      split
      · exact ⟨h, by simp⟩
      · rename_i hempty
        obtain ⟨hb, hbuf⟩ := Pipe.take_spec h hempty
        split
        · obtain ⟨hb', hbuf'⟩ := ih (i := i + 1) hb
          exact ⟨hb', by rw [hbuf, hbuf']; simp⟩
        · exact ⟨hb, by rw [hbuf]; simp⟩

theorem piperead_spec {n : Int} {k : Bool} {r : PipeRead} (h : pi.Bounded) (hr : piperead pi n k copyout = some r) :
    r.pipe.Bounded ∧ pi.buffered = r.taken ++ r.pipe.buffered := by
  simp only [piperead] at hr
  split at hr
  · split at hr
    · cases hr; exact ⟨h, by simp⟩
    · cases hr
  · cases hr; exact pipereadFrom_spec h

theorem pipereadFrom_ret_le (copyout : Nat → Bool) (i left : Nat) (pi : Pipe) : (i : Int) ≤ (pipereadFrom copyout i left pi).ret := by
  induction left generalizing i pi with
  | zero => exact Int.le_refl _
  | succ left ih =>
      simp only [pipereadFrom]
      split
      · exact Int.le_refl _
      · split
        · have := ih (i + 1) { pi with nread := pi.nread + 1 }
          push_cast at this ⊢
          omega
        · exact Int.le_refl _

theorem zeroIsEnd (pi : Pipe) : ZeroIsEnd pi := by
  intro n k copyout r hr hn hvalid hzero
  simp only [piperead] at hr
  split at hr
  · split at hr
    · cases hr; cases hzero
    · cases hr
  · rename_i hwait
    cases hr
    obtain ⟨left, hleft⟩ : ∃ left, n.toNat = left + 1 := ⟨n.toNat - 1, by omega⟩
    rw [hleft] at hzero
    simp only [pipereadFrom, hvalid, if_true] at hzero
    split at hzero
    · rename_i hempty
      exact ⟨Pipe.buffered_eq_nil.mpr hempty, by simpa [hempty] using hwait⟩
    · -- a byte was there, so at least one is counted
      have := pipereadFrom_ret_le copyout (0 + 1) left { pi with nread := pi.nread + 1 }
      simp only at hzero
      omega

/-! ## Runs -/

/-- What was taken, followed by what waits, is what was put. -/
structure PipeFifo (s : PipeSys) : Prop where
  bounded : s.pipe.Bounded
  fifo : s.taken ++ s.pipe.buffered = s.put

theorem PipeFifo.start (data : Nat → UInt8) : PipeFifo (.start data) := by
  constructor <;> simp [Pipe.Bounded, Pipe.buffered, PipeSys.start]

theorem PipeFifo.runWrite (h : PipeFifo s) (c : Nat) : PipeFifo (s.runWrite c i left killed copyin) := by
  obtain ⟨hb, hbuf⟩ := pipewriteFrom_spec killed copyin i left h.bounded
  refine ⟨hb, ?_⟩
  simp only [PipeSys.runWrite, hbuf, ← h.fifo, List.append_assoc]

theorem PipeFifo.runRead (h : PipeFifo s) (c : Nat) (n : Int) (k : Bool) : PipeFifo (s.runRead c n k copyout) := by
  simp only [PipeSys.runRead]
  cases hr : piperead s.pipe n k copyout with
  | none => exact ⟨h.bounded, h.fifo⟩
  | some r =>
      obtain ⟨hb, hbuf⟩ := piperead_spec h.bounded hr
      exact ⟨hb, by simp only [← h.fifo, hbuf, List.append_assoc]⟩

theorem PipeFifo.step {t : PipeSys} {a : PipeAct} (h : PipeFifo s) (ht : pipeStep s a = some t) : PipeFifo t := by
  simp only [pipeStep] at ht
  split at ht
  · cases ht
  · cases a with
    | write c n env =>
        simp only at ht
        split at ht
        · cases ht
        · cases ht; exact h.runWrite c
    | read c n env =>
        simp only at ht
        split at ht
        · cases ht
        · cases ht; exact h.runRead c n _
    | wake c env =>
        simp only at ht
        split at ht
        · cases ht
        · cases ht; exact h.runWrite c
        · cases ht; exact h.runRead c _ _
    | close writable =>
        cases ht
        cases writable
        · exact ⟨h.bounded, h.fifo⟩
        · exact ⟨h.bounded, h.fifo⟩

end Xv6Net.Sys
