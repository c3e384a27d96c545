import Xv6Net.Proc.Accounting
import Xv6Net.Proc.Sharing

/-!
# Thread groups over the history of the process table

A thread finds its group through its parent, and the parent changes when processes end. The group that a thread was
made to share is not in the process table, so it is kept beside it.
-/

namespace Xv6Net.Procs

open Kernel Vm Lib

/-- The machine, and for every process the `pid` of the process whose address space it was made to share. -/
structure Family where
  machine : Machine
  group : Slot → Nat

def Family.start (m : Machine) : Family := ⟨m, fun s => (m.proc s).pid⟩

/-- A child of `fork` has a group of its own, and a thread has the group of the process that made it. -/
def Family.regroup (f : Family) (m' : Machine) : ProcAct → Slot → Nat
  | .fork _ => (unusedSlot f.machine).elim f.group fun np => Function.update f.group np (m'.proc np).pid
  | .createThread s => (unusedSlot f.machine).elim f.group fun np => Function.update f.group np (f.group s)
  | _ => f.group

def familyStep (f : Family) (a : ProcAct) : Option Family :=
  (procStep f.machine a).map fun m' => ⟨m', f.regroup m' a⟩

/-- Whatever a thread asks of `growproc`, a process of another group keeps its page table and its size. -/
def Family.Isolated (f : Family) : Prop :=
  ∀ t n r m', (f.machine.proc t).state = .runnable → (f.machine.proc t).isThread = true →
    growproc f.machine t n = .ok (r, m') → ∀ s, (f.machine.proc s).state ≠ .unused → f.group s ≠ f.group t →
      (m'.proc s).pagetable = (f.machine.proc s).pagetable ∧ (m'.proc s).sz = (f.machine.proc s).sz

/-! ## Calls that keep the groups apart -/

instance (st : ProcState) : Decidable st.Live := inferInstanceAs (Decidable (_ ∧ _))

/-- The slot that the next process gets is named in no thread table of a live process other than `caller`, and what
`allocproc` leaves in its own thread table names unused slots only. -/
def SlotClean (m : Machine) (caller : Option Slot) : Prop :=
  ∀ np ∈ unusedSlot m,
    (∀ q, (m.proc q).state.Live → caller ≠ some q → np ∉ m.infants q) ∧
    ∀ j, ∀ u ∈ clearInfants (m.proc np).infantThreads j, u ≠ np ∧ (m.proc u).state = .unused

instance (m : Machine) (caller : Option Slot) : Decidable (SlotClean m caller) :=
  inferInstanceAs (Decidable (∀ np ∈ unusedSlot m, _))

/-- No live thread has `s` for its parent. -/
def Threadless (m : Machine) (s : Slot) : Prop :=
  ∀ t, (m.proc t).state.Live → (m.proc t).isThread = true → (m.proc t).parent ≠ some s

instance (m : Machine) (s : Slot) : Decidable (Threadless m s) := inferInstanceAs (Decidable (∀ _, _))

/-- New processes get clean slots, threads make no threads, and a process ends after its threads. -/
def KeepsApart (f : Family) : ProcAct → Prop
  | .fork _ => SlotClean f.machine none
  | .createThread s => (f.machine.proc s).isThread = false ∧ SlotClean f.machine (some s)
  | .exit s _ | .threadExit s _ => Threadless f.machine s
  | _ => True

instance decidableKeepsApart (f : Family) : ∀ a, Decidable (KeepsApart f a)
  | .fork _ => inferInstanceAs (Decidable (SlotClean ..))
  | .createThread _ => inferInstanceAs (Decidable (_ ∧ _))
  | .exit _ _ => inferInstanceAs (Decidable (Threadless ..))
  | .threadExit _ _ => inferInstanceAs (Decidable (Threadless ..))
  | .growproc _ _ => isTrue trivial
  | .exec _ _ _ => isTrue trivial
  | .wait _ _ => isTrue trivial

end Xv6Net.Procs
