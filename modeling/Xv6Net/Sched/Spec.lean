import Xv6Net.Sched.Discipline

/-!
# What locks and stacks are for
-/

namespace Xv6Net.Sched

open Procs (ProcState NPROC)

variable {K L V : Type}

/-- What a CPU may change, as `kernel/proc.h` has it: the fields of a process with the lock of the process, its parent also
with `wait_lock`, and `nextpid` with `pid_lock`. -/
structure FieldsGuarded (s s' : Sys K L V) (c : Nat) : Prop where
  proc : ∀ i, (s.locks (.proc i)).cpu = some c ∨
    ∃ q, s'.procs i = { s.procs i with parent := q } ∧ (q = (s.procs i).parent ∨ (s.locks .wait).cpu = some c)
  nextpid : s'.nextpid = s.nextpid ∨ (s.locks .pid).cpu = some c

/-- Every spinlock is held where the program says so, by one CPU, with interrupts off. -/
structure LocksHeld [DecidableEq K] (D : Discipline K L) (P : Program K L V) (s : Sys K L V) : Prop where
  held : ∀ c pc k x, (s.cpus c).code = .client pc :: k → x ∈ D.held pc →
    s.locks (.other x) = ⟨true, some c⟩ ∧ (s.cpus c).intr = false
  interruptible : ∀ c, (s.cpus c).intr = true → (s.cpus c).noff = 0 ∧ ∀ lk, (s.locks lk).cpu ≠ some c
  free : ∀ lk, (s.locks lk).locked = false → (s.locks lk).cpu = none
  guarded : ∀ c n s', step P s (.run c n) = some s' → FieldsGuarded s s' c

/-- A kernel stack is used by one CPU at most, whose process it belongs to; the process is RUNNING except while its lock is
held, and user code runs only in a process that is RUNNING. -/
structure StacksOwned (s : Sys K L V) : Prop where
  alone : ∀ c d p, (s.cpus c).stack = .proc p → (s.cpus d).stack = .proc p → c = d
  myproc : ∀ c p, (s.cpus c).stack = .proc p → (s.cpus c).proc = some p
  running : ∀ p, (s.locks (.proc p)).locked = false →
    ((s.procs p).state = .running ↔ ∃ c, (s.cpus c).stack = .proc p)
  user : ∀ c k, (s.cpus c).code = .user :: k → ∃ p, (s.cpus c).stack = .proc p ∧ (s.procs p).state = .running

/-- The CPU is in the loop of `acquire`, and the other one has the lock. -/
def Waits (s : Sys K L V) (c d : Nat) : Prop :=
  ∃ lk k, (s.cpus c).code = .swap lk :: k ∧ (s.locks lk).locked = true ∧ (s.locks lk).cpu = some d

/-- What a CPU in the loop of `panic` has printed. -/
def Sys.panicked (P : Program K L V) (s : Sys K L V) (c : Nat) : Option String :=
  match (s.cpus c).code with
  | .panic msg :: _ => some msg
  | .client pc :: _ =>
      match P.instr pc with
      | .panic msg => some msg
      | _ => none
  | _ => none

/-- The next step of the CPU is another one than a round of these two loops. -/
def GoesOn (P : Program K L V) (s : Sys K L V) (c : Nat) : Prop :=
  (s.cpus c).code ≠ [] ∧ s.panicked P c = none ∧ ∀ d, ¬ Waits s c d

/-- A child that `wait` of the process `p` would return. -/
def ZombieChild (s : Sys K L V) (p i : Nat) : Prop := (s.procs i).parent = some p ∧ (s.procs i).state = .zombie

end Xv6Net.Sched
