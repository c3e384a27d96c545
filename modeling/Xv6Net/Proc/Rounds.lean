import Xv6Net.Proc.Threads
import Xv6Net.Vm.Copy
import Xv6Net.Vm.Spec

/-!
# Rounds of making and joining a thread

In a round a process makes a thread, the thread runs to `thread_exit` and the process joins it. `join_thread` is here
with the bytes that it copies to the user.
-/

namespace Xv6Net.Procs

open Kernel Vm Lib

structure Round where
  status : Int32
  statusAddr : Nat
  -- what the threads have left in memory until the status is copied
  mem : Memory

/-- What `create_thread` and `join_thread` have returned, the latter if it was called and does not sleep, and what they
leave. -/
structure RoundEnd where
  created : Int
  joined : Option Int
  machine : Machine
  mem : Memory

/-- A round of `s`. The thread has the slot that `allocproc` finds; without a thread there is nothing to join. -/
def threadRound (s : Slot) (m : Machine) (r : Round) : Except Stop RoundEnd := do
  let (tid, m₁) ← createThread m s
  match if tid < 0 then none else unusedSlot m with
  | none => .ok ⟨tid, none, m₁, r.mem⟩
  | some t =>
      let m₂ ← threadExit m₁ t r.status.toInt
      match ← joinFind m₂ s tid.toNat r.statusAddr with
      | none => .ok ⟨tid, some (-1), m₂, r.mem⟩
      | some j =>
          match ← joinRound m₂ r.mem j fun pt => copyoutTo pt r.mem j.statusAddr with
          | none => .ok ⟨tid, none, m₂, r.mem⟩
          | some (ret, m₃, mem) => .ok ⟨tid, some ret, m₃, mem⟩

/-- Every round comes to its end, and `P` holds of it. -/
def EachRound (P : Machine → Round → RoundEnd → Prop) (s : Slot) : Machine → List Round → Prop
  | _, [] => True
  | m, r :: rounds => ∃ e, threadRound s m r = .ok e ∧ P m r e ∧ EachRound P s e.machine rounds

/-- The thread was made, and was joined with its id and its status. -/
structure Joined (pt : PageTable) (r : Round) (e : RoundEnd) : Prop where
  made : 0 ≤ e.created
  id : e.joined = some e.created
  status : r.statusAddr ≠ 0 → Copied pt r.mem e.mem r.statusAddr (bytes32 r.status.toUInt32)

def Machine.unused (m : Machine) : Finset Slot := {t | (m.proc t).state = .unused}

def Machine.inUse (m : Machine) : Finset Slot := {t | (m.proc t).state ≠ .unused}

/-- The pages that a thread of `s` takes at most: its trapframe, the tables of a process without memory and those for
the memory of `s`. -/
def threadPages (m : Machine) (s : Slot) : Nat := 4 + tablesBelow (pagesBelow 0 (m.proc s).sz)

/-- `s` is a process that can make threads. -/
structure Ready (m : Machine) (s : Slot) (pt : PageTable) : Prop where
  runnable : (m.proc s).state = .runnable
  isThread : (m.proc s).isThread = false
  cwd : (m.proc s).cwd = true
  pagetable : (m.proc s).pagetable = some pt
  covers : pt.Covers (m.proc s).sz
  size : (m.proc s).sz ≤ TRAPFRAME
  own : pt.Own
  init : (m.proc m.initproc).state ≠ .unused
  pids : ∀ t, (m.proc t).pid < m.nextpid

end Xv6Net.Procs
