import Xv6Net.Sched.Discipline

/-!
# Sleeping and waking up by the rules

What a lock protects has an invariant, and every channel belongs to a lock and stands for a condition on what the lock
protects. A program follows the rules if it sleeps on a channel only where the condition is known to be false, and if
whoever makes the condition true wakes the channel up before the lock is released. For every label it is said what is
known there about the data of the locks that are held, and which channels have yet to be woken up.
-/

namespace Xv6Net.Sched

variable {K L V : Type}

structure Monitor (K L V : Type) where
  inv : K → V → Prop
  asserts : L → K → V → Prop
  lockOf : Nat → K
  cond : Nat → V → Prop
  owes : L → Nat → Prop

namespace Monitor

variable (M : Monitor K L V)

/-- What is known at `pc` of the data of `k` is still known at `next`, and what is owed is still owed. -/
def Carries (k : K) (pc next : L) : Prop :=
  (∀ v, M.asserts pc k v → M.asserts next k v) ∧ ∀ n, M.lockOf n = k → M.owes pc n → M.owes next n

/-- The lock may be released at `pc`. -/
def Closes (k : K) (pc : L) : Prop := (∀ v, M.asserts pc k v → M.inv k v) ∧ ∀ n, M.lockOf n = k → ¬ M.owes pc n

def Allows (D : Discipline K L) (pc : L) : Instr K L V → Prop
  | .acquire k next => (∀ v, M.inv k v → M.asserts next k v) ∧ ∀ k' ∈ D.held pc, M.Carries k' pc next
  | .release k next => M.Closes k pc ∧ ∀ k' ∈ D.held pc, k' ≠ k → M.Carries k' pc next
  | .act k f => ∀ me v, M.asserts pc k v →
      M.asserts (f me v).2 k (f me v).1 ∧
      (∀ n, M.lockOf n = k → M.owes (f me v).2 n ∨ ¬ M.owes pc n ∧ (M.cond n (f me v).1 → M.cond n v)) ∧
      ∀ k' ∈ D.held pc, k' ≠ k → M.Carries k' pc (f me v).2
  | .choose next => ∀ n, ∀ k ∈ D.held pc, M.Carries k pc (next n)
  | .sleep chan k next =>
      M.lockOf chan = k ∧ M.Closes k pc ∧ (∀ v, M.asserts pc k v → ¬ M.cond chan v) ∧ ∀ v, M.inv k v → M.asserts next k v
  | .wakeup chan next => ∀ k ∈ D.held pc, (∀ v, M.asserts pc k v → M.asserts next k v) ∧
      ∀ n, M.lockOf n = k → M.owes pc n → n = chan ∨ M.owes next n
  | .kill _ next => ∀ k ∈ D.held pc, M.Carries k pc next
  | .killed yes no => ∀ k ∈ D.held pc, M.Carries k pc yes ∧ M.Carries k pc no
  | .fork _ | .wait _ | .exit | .ret | .panic _ => True

def Sound (D : Discipline K L) (P : Program K L V) : Prop := ∀ pc, M.Allows D pc (P.instr pc)

/-- Nothing is said about the data and the channels of the program. -/
def silent (lockOf : Nat → K) : Monitor K L V := ⟨fun _ _ => True, fun _ _ _ => True, lockOf, fun _ _ => False, fun _ _ => False⟩

end Monitor

/-- Every channel is slept on with one lock. -/
def Program.SleepsUnder (P : Program K L V) (lockOf : Nat → K) : Prop :=
  ∀ pc chan k next, P.instr pc = .sleep chan k next → lockOf chan = k

end Xv6Net.Sched
