import Xv6Net.Proc.Family

/-!
# Thread tables and `join_thread`

`join_thread` looks the thread up once and then waits for it, so the entry it has found may be another one when it
wakes up. A call that waits is kept beside the process table, until `wakeup` lets it look at the thread again.
-/

namespace Xv6Net.Procs

open Kernel Vm Lib

instance : NeZero MAX_THREADS := ⟨by decide⟩

/-- What a waiting `join_thread` goes on with: `p`, `thread_idx`, `child` and the arguments. -/
structure Joining where
  leader : Slot
  idx : Fin MAX_THREADS
  child : Slot
  threadId : Nat
  statusAddr : Nat

/-- The process in whose table `join_thread` looks: for a thread its parent. -/
def joinLeader (m : Machine) (s : Slot) : Except Stop Slot :=
  if (m.proc s).isThread then
    match (m.proc s).parent with
    | none => .error .fault
    | some p => .ok p
  else .ok s

/-- `join_thread` up to its loop; `none` stands for the return of -1. -/
def joinFind (m : Machine) (s : Slot) (threadId statusAddr : Nat) : Except Stop (Option Joining) := do
  let p ← joinLeader m s
  .ok ((List.finRange MAX_THREADS).findSome? fun i =>
    match (m.proc p).infantThreads i with
    | none => none
    | some child => if (m.proc child).pid = threadId then some ⟨p, i, child, threadId, statusAddr⟩ else none)

/-- `p->infant_threads[i] = 0`. -/
def clearInfant (m : Machine) (p : Slot) (i : Fin MAX_THREADS) : Machine :=
  m.setProc p { m.proc p with infantThreads := Function.update (m.proc p).infantThreads i none }

/-- One round of the loop of `join_thread`, with `copyout` as a function of the page table and the bytes: the return value
and what `copyout` leaves behind. `none` if it goes to sleep. `xstate` is an `int`. -/
def joinRound {α : Type} (m : Machine) (mem : α) (j : Joining) (copyout : PageTable → List UInt8 → Bool × α) :
    Except Stop (Option (Int × Machine × α)) :=
  if (m.proc j.child).state = .zombie then
    if j.statusAddr = 0 then .ok (some (j.threadId, clearInfant m j.leader j.idx, mem))
    else
      match (m.proc j.leader).pagetable with
      | none => .error .fault
      | some pt =>
          match copyout pt (bytes32 (.ofInt (m.proc j.child).xstate)) with
          | (true, mem) => .ok (some (j.threadId, clearInfant m j.leader j.idx, mem))
          | (false, mem) => .ok (some (-1, m, mem))
  else if (m.proc j.leader).killed then .ok (some (-1, m, mem))
  else .ok none

/-- The process table with the groups, which processes have made a thread since they were allocated, and the
`join_thread` calls that wait. -/
structure Crew extends Family where
  made : Slot → Bool
  joining : Slot → Option Joining

def Crew.start (m : Machine) : Crew := ⟨.start m, fun _ => false, fun _ => none⟩

/-- Who has made a thread after a call: a new process has made none. -/
def Crew.remade (c : Crew) (m' : Machine) : ProcAct → Slot → Bool
  | .fork _ => (unusedSlot c.machine).elim c.made fun np => Function.update c.made np false
  | .createThread s =>
      (unusedSlot c.machine).elim c.made fun np =>
        if (m'.proc np).state = .unused then c.made else Function.update (Function.update c.made np false) s true
  | _ => c.made

/-- One round for the caller `s`, which sleeps or has returned after it. -/
def Crew.round (c : Crew) (s : Slot) (j : Joining) : Option Crew :=
  match joinRound c.machine () j fun pt src => (copyout pt j.statusAddr src.length, ()) with
  | .error _ => none
  | .ok (some (_, m, _)) =>
      some { c with
        machine := m.setProc s { m.proc s with state := .runnable }
        joining := Function.update c.joining s none }
  | .ok none =>
      some { c with
        machine := c.machine.setProc s { c.machine.proc s with state := .sleeping }
        joining := Function.update c.joining s (some j) }

inductive CrewAct where
  | call (a : ProcAct)
  | joinThread (s : Slot) (threadId statusAddr : Nat)
  | wakeup (s : Slot)

/-- A call of `exit` by a thread, which also ends the other threads of its parent. -/
def exitsThreads (m : Machine) : ProcAct → Bool
  | .exit s _ => (m.proc s).isThread
  | _ => false

/-- Calls of `exit` are those of processes that are not threads. -/
def crewStep (c : Crew) : CrewAct → Option Crew
  | .call a =>
      if exitsThreads c.machine a then none
      else (familyStep c.toFamily a).map fun f => ⟨f, c.remade f.machine a, c.joining⟩
  | .joinThread s threadId statusAddr =>
      if (c.machine.proc s).state = .runnable then
        match joinFind c.machine s threadId statusAddr with
        | .error _ => none
        | .ok none => some c
        | .ok (some j) => c.round s j
      else none
  | .wakeup s =>
      if (c.machine.proc s).state = .sleeping then (c.joining s).bind (c.round s) else none

/-! ## Well-formed tables -/

/-- What the thread tables of the processes in use say. -/
structure Crew.WellFormed (c : Crew) : Prop where
  entries : ∀ p i t, (c.machine.proc p).state ≠ .unused → (c.machine.proc p).infantThreads i = some t →
    (c.machine.proc t).state ≠ .unused ∧ (c.machine.proc t).isThread = true ∧ (c.machine.proc t).parent = some p
  once : ∀ p p' i i' t, (c.machine.proc p).state ≠ .unused → (c.machine.proc p').state ≠ .unused →
    (c.machine.proc p).infantThreads i = some t → (c.machine.proc p').infantThreads i' = some t → p = p' ∧ i = i'
  fresh : ∀ p, (c.machine.proc p).state ≠ .unused → c.made p = false → ∀ i, (c.machine.proc p).infantThreads i = none
  placed : ∀ t, (c.machine.proc t).state.Live → (c.machine.proc t).isThread = true →
    ∃ p i, (c.machine.proc p).state ≠ .unused ∧ (c.machine.proc p).pid = c.group t ∧
      (c.machine.proc p).infantThreads i = some t

/-- The child that `wait` frees. -/
def zombieChild (m : Machine) (s : Slot) : Option Slot :=
  (List.finRange NPROC).find? fun c => (m.proc c).parent = some s ∧ (m.proc c).state = .zombie

/-- The condition on a step: threads make no threads; a process ends with all its threads joined; `wait` comes to no
thread that was not joined; and a `join_thread` that wakes up for a thread that has ended finds it in its place. -/
def JoinsFirst (c : Crew) : CrewAct → Prop
  | .call (.createThread s) => (c.machine.proc s).isThread = false
  | .call (.exit s _) | .call (.threadExit s _) => ∀ i, (c.machine.proc s).infantThreads i = none
  | .call (.wait s _) => ∀ t ∈ zombieChild c.machine s, t ∉ c.machine.infants s
  | .wakeup s => ∀ j ∈ c.joining s, (c.machine.proc j.child).state = .zombie →
      (c.machine.proc j.leader).infantThreads j.idx = some j.child
  | _ => True

instance decidableJoinsFirst (c : Crew) : ∀ a, Decidable (JoinsFirst c a)
  | .call (.createThread _) => inferInstanceAs (Decidable (_ = _))
  | .call (.exit _ _) => inferInstanceAs (Decidable (∀ _, _ = _))
  | .call (.threadExit _ _) => inferInstanceAs (Decidable (∀ _, _ = _))
  | .call (.wait _ _) => inferInstanceAs (Decidable (∀ _ ∈ _, _))
  | .call (.fork _) => isTrue trivial
  | .call (.growproc _ _) => isTrue trivial
  | .call (.exec _ _ _) => isTrue trivial
  | .joinThread _ _ _ => isTrue trivial
  | .wakeup _ => inferInstanceAs (Decidable (∀ _ ∈ _, _ → _))

end Xv6Net.Procs
