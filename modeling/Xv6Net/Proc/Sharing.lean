import Xv6Net.Lib.Run
import Xv6Net.Proc.Proc
import Xv6Net.Vm.Spec

/-!
# A process and its threads as one address space

The leader creates threads, and the leader and its threads grow and shrink. The group is meant to have one address
space, although each member has a page table and a size of its own.
-/

namespace Xv6Net.Procs

open Kernel Vm Lib

def Proc.leaf (p : Proc) (i : Nat) : Option Pte := p.pagetable.bind fun pt => pt.leaves.lookup i

def ProcState.Live (st : ProcState) : Prop := st ≠ .unused ∧ st ≠ .zombie

/-- The process maps the pages below its size and no page above. -/
def Proc.Exact (p : Proc) : Prop := ∀ i, i < USER_PAGES → ((p.leaf i).isSome ↔ i * PGSIZE < p.sz)

/-- The leader maps what its size says, and its live threads have the same size and the same mappings. -/
structure Machine.Agree (m : Machine) (leader : Slot) : Prop where
  exact : (m.proc leader).Exact
  size : ∀ j t, (m.proc leader).infantThreads j = some t → (m.proc t).state.Live →
    (m.proc t).sz = (m.proc leader).sz
  pages : ∀ j t, (m.proc leader).infantThreads j = some t → (m.proc t).state.Live →
    ∀ i, i < USER_PAGES → (m.proc t).leaf i = (m.proc leader).leaf i

/-- A process without threads whose memory is in order. -/
structure Machine.Solo (m : Machine) (leader : Slot) : Prop where
  isThread : (m.proc leader).isThread = false
  infants : ∀ j, (m.proc leader).infantThreads j = none
  exact : (m.proc leader).Exact
  size : (m.proc leader).sz ≤ TRAPFRAME
  trap : ((m.proc leader).leaf USER_PAGES).isSome

inductive GroupAct where
  | create
  | grow (s : Slot) (n : Int)
deriving DecidableEq, Repr

/-- The leader creates a thread, or a member of its group calls `growproc`. The step is there if the call succeeds. -/
def groupStep (leader : Slot) (m : Machine) : GroupAct → Option Machine
  | .create =>
      match createThread m leader with
      | .ok (r, m') => if (m.proc leader).state = .runnable ∧ 0 ≤ r then some m' else none
      | .error _ => none
  | .grow s n =>
      match growproc m s n with
      | .ok (r, m') =>
          if (s = leader ∨ s ∈ m.infants leader) ∧ (m.proc s).state = .runnable ∧ r = 0 then some m' else none
      | .error _ => none

/-- A call of `growproc` that changes nothing: `n` is 0, or the sum wraps around. -/
def staysPut (sz : Nat) (n : Int) : Bool :=
  n = 0 ∨ 0 < n ∧ grownSize sz n < sz ∨ n < 0 ∧ sz ≤ grownSize sz n

/-- A call of `growproc` changes nothing, or it is made by a thread that shrinks or grows past the end of a page. -/
def GrowsTogether (m : Machine) : GroupAct → Prop
  | .create => True
  | .grow s n => staysPut (m.proc s).sz n = true ∨
      (m.proc s).isThread = true ∧ (n < 0 ∨ pgRoundUp (m.proc s).sz < grownSize (m.proc s).sz n)

instance decidableGrowsTogether (m : Machine) : ∀ a, Decidable (GrowsTogether m a)
  | .create => isTrue trivial
  | .grow _ _ => inferInstanceAs (Decidable (_ ∨ _))

end Xv6Net.Procs
