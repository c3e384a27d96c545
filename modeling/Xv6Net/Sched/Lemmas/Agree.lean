import Xv6Net.Net.Lemmas.Queue
import Xv6Net.Proc.Lemmas.Created
import Xv6Net.Sched.Lemmas.Invariant
import Xv6Net.Sched.Kernel
import Xv6Net.Sched.Spec

/-!
# The other models of processes and of queues

What CPUs do to the table of processes in `fork`, `exit` and `wait`, and to the queue of a socket, is what these calls do
where they run one after the other.
-/

namespace Xv6Net.Sched

open Lib Net
open Procs (Slot Machine NPROC)

section Processes

variable {K L V : Type} [DecidableEq K] {P : Program K L V} {s : Sys K L V} {m : Machine} {c : Nat} {p : Slot}

/-- Both tables say the same of every process. -/
def Agrees (s : Sys K L V) (m : Machine) : Prop :=
  ∀ i : Slot, (s.procs i).state = (m.proc i).state ∧ (s.procs i).parent = (m.proc i).parent.map Fin.val ∧
    (s.procs i).isThread = (m.proc i).isThread

/-- Operations of one CPU that find memory. -/
def execAll (P : Program K L V) (s : Sys K L V) (c : Nat) (ops : List (Op K L)) : Sys K L V :=
  ops.foldl (exec P · c 1 []) s

theorem fork_agrees (h : Agrees s m) : Ensures (Procs.fork m p) fun (r, m') => 0 ≤ r → ∃ i : Slot,
    Procs.unusedSlot m = some i ∧
      Agrees (execAll P s c [.allocTest i p, .allocMem i p r.toNat, .setParent i p, .start i]) m' := by
  refine Procs.fork_result.mono fun (r, m') hr h0 => ?_
  obtain ⟨rfl, -⟩ | ⟨-, np, hn⟩ := hr
  · cases h0
  refine ⟨np, hn.slot, fun i => ?_⟩
  have hun := (h np).1.trans (Procs.unusedSlot_state hn.slot)
  by_cases hi : i = np
  · subst hi
    simp [execAll, exec, hun, hn.state, hn.parent, hn.isThread]
  · simpa [execAll, exec, hun, Fin.val_inj, hi, hn.others i hi] using h i

theorem execAll_setParent (l : List Slot) (s : Sys K L V) (i : Slot) :
    (execAll P s c (l.map fun j : Slot => .setParent j initproc)).procs i =
      if i ∈ l then { s.procs i with parent := some initproc } else s.procs i := by
  induction l generalizing s with
  | nil => rfl
  | cons j rest ih =>
      refine (ih _).trans ?_
      by_cases hj : i = j
      · simp [exec, hj]
      · simp [exec, Fin.val_inj, hj]

theorem exit_agrees {status : Int} (h : Agrees s m) (hinit : m.initproc.val = initproc) :
    Ensures (Procs.threadExit m p status) fun m' =>
      Agrees (exec P (execAll P s c (((List.finRange NPROC).filter fun i => (m.proc i).parent = some p).map
        fun i : Slot => .setParent i initproc)) c 1 [] (.park p .zombie)) m' := by
  refine Procs.threadExit_proc.mono fun m' hm i => ?_
  obtain ⟨hstate, hparent, hthread⟩ := h i
  rw [hm.2]
  by_cases hi : i = p
  · subst hi
    by_cases hc : (m.proc i).parent = some i <;> simp [exec, execAll_setParent, Procs.Proc.afterExit, *]
  · by_cases hc : (m.proc i).parent = some p <;> simp [exec, execAll_setParent, Fin.val_inj, Procs.Proc.afterExit, *]

theorem wait_agrees {addr : Nat} (h : Agrees s m) : Ensures (Procs.wait m p addr) fun (_, m') =>
    m' = m ∨ ∃ i : Slot, ZombieChild s p i ∧ Agrees (execAll P s c [.waitTest p i]) m' := by
  unfold Procs.wait
  split
  · rename_i i hi
    have hz := List.find?_some hi
    simp only [decide_eq_true_eq] at hz
    have hzs := (h i).1.trans hz.2
    split
    · exact .error
    · split
      · exact .ok (.inl rfl)
      · refine Procs.freeproc_proc.bind fun m' hm => .ok (.inr ⟨i, ⟨by simp [(h i).2.1, hz.1], hzs⟩, fun j => ?_⟩)
        rw [hm.2]
        by_cases hj : j = i
        · subst hj
          simp [execAll, exec, hzs, freeproc, Procs.Proc.freed, (h j).2.2]
        · simpa [execAll, exec, hzs, Fin.val_inj, hj] using h j
  · split <;> exact .ok (.inl rfl)

end Processes

/-! ## The queue of a socket -/

def RxQueue.ofHost (sock : Nat) (h : Host) : RxQueue :=
  ⟨(h.socks sock).rxHead, (h.socks sock).rxTail, fun pkt => (h.udpFrames pkt).next⟩

theorem RxQueue.enqueue_ofHost (h : Host) (pkt sock : Nat) :
    (ofHost sock h).enqueue pkt = (enqueueUdpPacket h pkt sock).toOption.map (ofHost sock) := by
  simp only [enqueueUdpPacket, enqueue, ofHost]
  cases hh : (h.socks sock).rxHead with
  | none => simp [Except.toOption, ofHost, setRx, setNext_next]
  | some x => cases ht : (h.socks sock).rxTail <;> simp [Except.toOption, ofHost, setRx, setNext_next]

theorem RxQueue.dequeue_ofHost (h : Host) (sock : Nat) :
    (ofHost sock h).dequeue = ofHost sock (dequeueUdpPacket h sock).2 := by
  simp only [dequeueUdpPacket, dequeue, ofHost]
  cases hh : (h.socks sock).rxHead <;> simp [setRx, hh]

end Xv6Net.Sched
