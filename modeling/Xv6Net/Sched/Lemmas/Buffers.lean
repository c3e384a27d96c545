import Xv6Net.Sched.Kernel
import Xv6Net.Sys.Lemmas.Pipe

/-!
# Pipes and the buffers of the console and of the UART are queues

What readers have taken, followed by what is left in the buffer, is what was entered; and what was sent, followed by
what waits, is what was written.
-/

namespace Xv6Net.Sched

open Xv6Net.Lib

/-! ## The console -/

structure Cons.Ok (x : Cons) : Prop where
  line : (x.w - x.r).toNat ≤ (x.e - x.r).toNat
  room : (x.e - x.r).toNat ≤ INPUT_BUF_SIZE
  entered : x.entered = x.taken ++ window x.buf INPUT_BUF_SIZE x.r.toNat (x.w - x.r).toNat
  edited : x.line = x.edited

namespace Cons

variable {x : Cons}

theorem bounds (x : Cons) : x.e.toNat < 2 ^ 32 ∧ x.w.toNat < 2 ^ 32 ∧ x.r.toNat < 2 ^ 32 :=
  ⟨x.e.toNat_lt, x.w.toNat_lt, x.r.toNat_lt⟩

/-- Between the three counters. -/
theorem Ok.split (h : x.Ok) : (x.e - x.r).toNat = (x.w - x.r).toNat + (x.e - x.w).toNat := by
  have hline := h.line
  have hroom := h.room
  have hb := x.bounds
  simp only [UInt32.toNat_sub, INPUT_BUF_SIZE] at hline hroom ⊢
  omega

/-- The last character of the line is erased. -/
theorem Ok.erase (h : x.Ok) (hne : x.e ≠ x.w) : x.erase.Ok := by
  have hne : x.e.toNat ≠ x.w.toNat := fun he => hne (UInt32.toNat_inj.mp he)
  have hcount : (x.e - 1 - x.r).toNat + 1 = (x.e - x.r).toNat ∧ (x.w - x.r).toNat < (x.e - x.r).toNat ∧
      (x.e - x.w).toNat = (x.e - 1 - x.w).toNat + 1 := by
    have hline := h.line
    have hb := x.bounds
    simp only [UInt32.toNat_sub, UInt32.toNat_one] at hline ⊢
    omega
  have hroom := h.room
  refine ⟨by simp only [Cons.erase]; omega, by simp only [Cons.erase]; omega, h.entered, ?_⟩
  simp only [Cons.erase, Cons.edited, h.edited, hcount.2.2, dropLast_window]

theorem Ok.killLine (h : x.Ok) (fuel : Nat) : (x.killLine fuel).Ok := by
  induction fuel generalizing x with
  | zero => exact h
  | succ fuel ih =>
      simp only [Cons.killLine]
      split
      · rename_i hx
        exact ih (h.erase hx.1)
      · exact h

theorem Ok.put (h : x.Ok) (hroom : x.e - x.r < .ofNat INPUT_BUF_SIZE) (c : UInt8) : (x.put c).Ok := by
  have hlt : (x.e - x.r).toNat < INPUT_BUF_SIZE := by simpa [UInt32.lt_iff_toNat_lt, INPUT_BUF_SIZE] using hroom
  have hsplit := h.split
  have hcount : (x.e + 1 - x.r).toNat = (x.e - x.r).toNat + 1 ∧ (x.e + 1 - x.w).toNat = (x.e - x.w).toNat + 1 := by
    have hb := x.bounds
    simp only [UInt32.toNat_sub, UInt32.toNat_add, UInt32.toNat_one, INPUT_BUF_SIZE] at hlt hsplit ⊢
    omega
  have hslot : x.e.toNat % INPUT_BUF_SIZE = (x.r.toNat + (x.e - x.r).toNat) % INPUT_BUF_SIZE ∧
      x.e.toNat % INPUT_BUF_SIZE = (x.w.toNat + (x.e - x.w).toNat) % INPUT_BUF_SIZE := by
    have hb := x.bounds
    simp only [UInt32.toNat_sub, INPUT_BUF_SIZE]
    omega
  refine ⟨?_, ?_, ?_, ?_⟩
  · have := h.line
    simp only [Cons.put, hcount.1]
    omega
  · simp only [Cons.put, hcount.1]
    omega
  · simp only [Cons.put, hslot.1]
    rw [window_update_of_le x.buf _ c h.line hlt]
    exact h.entered
  · simp only [Cons.put, Cons.edited, hcount.2, hslot.2]
    rw [window_push x.buf _ c (by omega), h.edited, Cons.edited]

/-- A whole line is handed to the readers. -/
theorem Ok.enter (h : x.Ok) : x.enter.Ok := by
  have hstart : x.line =
      window x.buf INPUT_BUF_SIZE (x.r.toNat + (x.w - x.r).toNat) (x.e - x.w).toNat := by
    have hb := x.bounds
    have hw : x.w.toNat = (x.r.toNat + (x.w - x.r).toNat) % 2 ^ 32 := by
      simp only [UInt32.toNat_sub]
      omega
    rw [h.edited, Cons.edited, hw, window_mod _ _ _ (by decide)]
  refine ⟨Nat.le_refl _, h.room, ?_, by simp [Cons.enter, Cons.edited]⟩
  simp only [Cons.enter, h.entered, hstart, List.append_assoc, window_append, h.split]

theorem Ok.store (h : x.Ok) (hroom : x.e - x.r < .ofNat INPUT_BUF_SIZE) (c : UInt8) : (x.store c).2.Ok := by
  have hput := h.put hroom c
  simp only [Cons.store]
  split
  · exact hput.enter
  · exact hput

theorem Ok.intr (h : x.Ok) (c : UInt8) : (x.intr c).2.Ok := by
  simp only [Cons.intr]
  split
  · exact h
  split
  · exact h.killLine _
  split
  · simp only
    split
    · rename_i hne
      exact h.erase hne
    · exact h
  split
  · rename_i hroom
    exact h.store hroom.2 _
  · exact h

theorem killLine_fields (fuel : Nat) : (x.killLine fuel).r = x.r ∧ (x.killLine fuel).w = x.w := by
  induction fuel generalizing x with
  | zero => exact ⟨rfl, rfl⟩
  | succ fuel ih =>
      simp only [Cons.killLine]
      split
      · exact ih
      · exact ⟨rfl, rfl⟩

theorem store_quiet (c : UInt8) (h : (x.store c).1 = false) : (x.store c).2.r = x.r ∧ (x.store c).2.w = x.w := by
  simp only [Cons.store] at h ⊢
  split at h
  · cases h
  · rename_i hno
    rw [if_neg hno]
    exact ⟨rfl, rfl⟩

/-- Without a call of `wakeup`, readers have no more to read than before. -/
theorem intr_quiet (c : UInt8) (h : (x.intr c).1 = false) : (x.intr c).2.r = x.r ∧ (x.intr c).2.w = x.w := by
  simp only [Cons.intr] at h ⊢
  split
  · exact ⟨rfl, rfl⟩
  split
  · exact killLine_fields _
  split
  · simp only
    split <;> exact ⟨rfl, rfl⟩
  split
  · exact store_quiet _ (by simp_all only [↓reduceIte, ne_eq, not_false_eq_true, and_self])
  · exact ⟨rfl, rfl⟩

theorem Ok.get (h : x.Ok) (hne : x.r ≠ x.w) (n target : Nat) : (x.get n target).2.Ok := by
  simp only [Cons.get]
  split
  · exact h
  · have hne : x.r.toNat ≠ x.w.toNat := fun he => hne (UInt32.toNat_inj.mp he)
    have hcount : (x.w - x.r).toNat = (x.w - (x.r + 1)).toNat + 1 ∧
        (x.e - (x.r + 1)).toNat + 1 = (x.e - x.r).toNat := by
      have hline := h.line
      have hb := x.bounds
      simp only [UInt32.toNat_sub, UInt32.toNat_add, UInt32.toNat_one] at hline ⊢
      omega
    have hline := h.line
    have hroom := h.room
    refine ⟨by simp only; omega, by simp only; omega, ?_, h.edited⟩
    simp only [h.entered, hcount.1, window_succ, List.append_assoc, List.cons_append, List.nil_append]
    rw [UInt32.toNat_add, UInt32.toNat_one, window_mod _ _ _ (by decide)]

end Cons

/-! ## The UART -/

structure Uart.Ok (x : Uart) : Prop where
  room : (x.w - x.r).toNat ≤ UART_TX_BUF_SIZE
  written : x.written = x.sent ++ window x.buf UART_TX_BUF_SIZE x.r.toNat (x.w - x.r).toNat

namespace Uart

variable {x : Uart}

theorem bounds (x : Uart) : x.w.toNat < 2 ^ 64 ∧ x.r.toNat < 2 ^ 64 := ⟨x.w.toNat_lt, x.r.toNat_lt⟩

theorem Ok.put (h : x.Ok) (hfull : ¬ x.Full) (c : UInt8) : (x.put c).Ok := by
  have hlt : (x.w - x.r).toNat < UART_TX_BUF_SIZE := by
    refine Nat.lt_of_le_of_ne h.room fun heq => hfull ?_
    have hb := x.bounds
    apply UInt64.toNat_inj.mp
    simp only [UInt64.toNat_sub, UInt64.toNat_add, UInt64.toNat_ofNat', UART_TX_BUF_SIZE] at heq ⊢
    omega
  have hcount : (x.w + 1 - x.r).toNat = (x.w - x.r).toNat + 1 := by
    have hb := x.bounds
    simp only [UInt64.toNat_sub, UInt64.toNat_add, UInt64.toNat_one, UART_TX_BUF_SIZE] at hlt ⊢
    omega
  have hslot : x.w.toNat % UART_TX_BUF_SIZE = (x.r.toNat + (x.w - x.r).toNat) % UART_TX_BUF_SIZE := by
    have hb := x.bounds
    simp only [UInt64.toNat_sub, UART_TX_BUF_SIZE]
    omega
  refine ⟨?_, ?_⟩
  · simp only [Uart.put, hcount]
    omega
  · simp only [Uart.put, hcount, hslot]
    rw [window_push x.buf _ c hlt, h.written, List.append_assoc]

theorem Ok.send (h : x.Ok) (hne : x.w ≠ x.r) : x.send.Ok := by
  have hne : x.w.toNat ≠ x.r.toNat := fun he => hne (UInt64.toNat_inj.mp he)
  have hcount : (x.w - x.r).toNat = (x.w - (x.r + 1)).toNat + 1 := by
    have hb := x.bounds
    simp only [UInt64.toNat_sub, UInt64.toNat_add, UInt64.toNat_one]
    omega
  have hroom := h.room
  refine ⟨by simp only [Uart.send]; omega, ?_⟩
  simp only [Uart.send, h.written, hcount, window_succ, List.append_assoc, List.cons_append, List.nil_append]
  rw [UInt64.toNat_add, UInt64.toNat_one, window_mod _ _ _ (by decide)]

end Uart

/-! ## Pipes -/

structure Shared.PipeOk (v : Shared) : Prop where
  bounded : v.pipe.Bounded
  put : v.put = v.taken ++ v.pipe.buffered

namespace Shared

variable {v : Shared}

theorem PipeOk.storeByte (h : v.PipeOk) (hroom : ¬ Pipe.Full v.pipe) (ch : UInt8) : (v.storeByte ch).PipeOk := by
  obtain ⟨hb, hbuf⟩ := Sys.Pipe.store_spec h.bounded hroom ch
  exact ⟨hb, by simp only [Shared.storeByte, hbuf, h.put, List.append_assoc]⟩

theorem PipeOk.takeByte (h : v.PipeOk) (hne : v.pipe.nread ≠ v.pipe.nwrite) : v.takeByte.PipeOk := by
  obtain ⟨hb, hbuf⟩ := Sys.Pipe.take_spec h.bounded hne
  exact ⟨hb, by simp only [Shared.takeByte, h.put, hbuf, List.append_assoc, List.cons_append, List.nil_append]⟩

theorem PipeOk.endClosed (h : v.PipeOk) (writable : Bool) : ({ v with pipe := v.pipe.endClosed writable } : Shared).PipeOk := by
  cases writable <;> exact ⟨h.bounded, h.put⟩

end Shared

/-! ## The queue of a socket -/

/-- `rx_tail` is null exactly if `rx_head` is. -/
def RxQueue.Ok (q : RxQueue) : Prop := q.head.isNone = q.tail.isNone

namespace RxQueue

variable {q q' : RxQueue}

theorem Ok.enqueue (h : q.Ok) (pkt : Nat) : ∃ q', q.enqueue pkt = some q' ∧ q'.Ok := by
  obtain ⟨head, tail, next⟩ := q
  cases head with
  | none => exact ⟨_, rfl, rfl⟩
  | some x =>
      cases tail with
      | none => cases h
      | some t => exact ⟨_, rfl, rfl⟩

theorem Ok.dequeue (h : q.Ok) : q.dequeue.Ok := by
  obtain ⟨head, tail, next⟩ := q
  cases head with
  | none => exact h
  | some x =>
      simp only [RxQueue.dequeue, RxQueue.Ok] at h ⊢
      cases next x with
      | none => rfl
      | some y => exact h

end RxQueue

end Xv6Net.Sched
