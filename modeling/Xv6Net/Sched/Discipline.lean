import Xv6Net.Sched.Machine

/-!
# What the kernel demands of the code that calls it

For every label of a program it is said which spinlocks are held there, and whether it belongs to an interrupt
handler. A program is sound if each of its steps agrees with that: locks are taken in one order, what is released is
held, `sleep` is called with just the lock that is passed to it, and a handler neither sleeps nor forks, waits or exits.
-/

namespace Xv6Net.Sched

variable {K L V : Type}

structure Discipline (K L : Type) where
  held : L → List K
  irq : L → Bool
  -- a lock is taken only under locks of greater height
  height : K → Nat

/-- Control goes from `pc` to `next`, where `ks` is held. -/
def Discipline.Goes (D : Discipline K L) (pc next : L) (ks : List K) : Prop := D.held next = ks ∧ D.irq next = D.irq pc

def Discipline.Allows [DecidableEq K] (D : Discipline K L) (pc : L) : Instr K L V → Prop
  | .acquire k next => (∀ x ∈ D.held pc, D.height k < D.height x) ∧ D.Goes pc next (k :: D.held pc)
  | .release k next => k ∈ D.held pc ∧ D.Goes pc next ((D.held pc).erase k)
  | .act k f => k ∈ D.held pc ∧ ∀ me v, D.Goes pc (f me v).2 (D.held pc)
  | .choose next => ∀ n, D.Goes pc (next n) (D.held pc)
  | .sleep _ k next => D.held pc = [k] ∧ D.irq pc = false ∧ D.Goes pc next [k]
  | .wakeup _ next | .kill _ next => D.Goes pc next (D.held pc)
  | .killed yes no => D.irq pc = false ∧ D.Goes pc yes (D.held pc) ∧ D.Goes pc no (D.held pc)
  | .fork next | .wait next => D.held pc = [] ∧ D.irq pc = false ∧ D.Goes pc next []
  | .exit => D.held pc = [] ∧ D.irq pc = false
  | .ret => D.held pc = []
  | .panic _ => True

/-- The order of all locks: `pid_lock` is taken under the lock of a process, and that under any other one. -/
def Discipline.level (D : Discipline K L) : Lock K → Nat
  | .pid => 0
  | .proc _ => 1
  | .wait => 2
  | .other k => D.height k + 2

/-- Where the program is entered. -/
def Discipline.Entry (D : Discipline K L) (irq : Bool) (pc : L) : Prop := D.held pc = [] ∧ D.irq pc = irq

structure Discipline.Sound [DecidableEq K] (D : Discipline K L) (P : Program K L V) : Prop where
  nodup : ∀ pc, (D.held pc).Nodup
  allows : ∀ pc, D.Allows pc (P.instr pc)
  syscall : ∀ n, D.Entry false (P.syscall n)
  exiting : D.Entry false P.exiting
  fsinit : D.Entry false P.fsinit
  clockintr : D.Entry true P.clockintr
  external : ∀ n, D.Entry true (P.external n)

end Xv6Net.Sched
