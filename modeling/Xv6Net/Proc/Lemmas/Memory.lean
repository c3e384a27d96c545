import Xv6Net.Proc.Accounting
import Xv6Net.Vm.Lemmas.Uvm

/-!
# The memory of all processes and the ledger of pages
-/

namespace Xv6Net.Procs

open Kernel Vm Lib

variable {held : Nat → Prop} {m m' : Machine} {s : Slot}

/-- What all processes but one contribute. -/
def Machine.others (m : Machine) (s : Slot) (f : Proc → Multiset Nat) : Multiset Nat :=
  ∑ t ∈ Finset.univ.erase s, f (m.proc t)

theorem Machine.sum_split (m : Machine) (s : Slot) (f : Proc → Multiset Nat) :
    ∑ t, f (m.proc t) = f (m.proc s) + m.others s f := (Finset.add_sum_erase _ _ (Finset.mem_univ s)).symm

theorem Machine.others_congr {f : Proc → Multiset Nat} (h : ∀ t, t ≠ s → m'.proc t = m.proc t) :
    m'.others s f = m.others s f := Finset.sum_congr rfl fun t ht => by rw [h t (Finset.ne_of_mem_erase ht)]

/-- The ledger holds for the pages of all processes, every page table maps the trapframe, sizes end below it, and an
unused slot has no memory. -/
structure MemInv (held : Nat → Prop) (m : Machine) : Prop where
  ledger : Ledger held m.kmem m.userPages m.kernPages
  trap : ∀ s pt, (m.proc s).pagetable = some pt → USER_PAGES ∈ pt.leaves
  size : ∀ s, (m.proc s).sz ≤ TRAPFRAME
  unused : ∀ s, (m.proc s).state = .unused → (m.proc s).trapframe = none ∧ (m.proc s).pagetable = none

/-- The ledger, seen from one process. -/
theorem MemInv.ledgerAt (hi : MemInv held m) (s : Slot) :
    Ledger held m.kmem ((m.proc s).user + m.others s Proc.user) ((m.proc s).kern + m.others s Proc.kern) := by
  have := hi.ledger
  rwa [Machine.userPages, Machine.kernPages, m.sum_split s, m.sum_split s] at this

theorem MemInv.set (hi : MemInv held m) (hsame : ∀ t, t ≠ s → m'.proc t = m.proc t)
    (hl : Ledger held m'.kmem ((m'.proc s).user + m.others s Proc.user) ((m'.proc s).kern + m.others s Proc.kern))
    (htrap : ∀ pt, (m'.proc s).pagetable = some pt → USER_PAGES ∈ pt.leaves) (hsz : (m'.proc s).sz ≤ TRAPFRAME)
    (hun : (m'.proc s).state = .unused → (m'.proc s).trapframe = none ∧ (m'.proc s).pagetable = none) :
    MemInv held m' := by
  refine ⟨?_, fun t pt ht => ?_, fun t => ?_, fun t ht => ?_⟩
  · rw [Machine.userPages, Machine.kernPages, m'.sum_split s, m'.sum_split s, Machine.others_congr hsame,
      Machine.others_congr hsame]
    exact hl
  · by_cases h : t = s
    · subst h; exact htrap pt ht
    · rw [hsame t h] at ht; exact hi.trap t pt ht
  · by_cases h : t = s
    · subst h; exact hsz
    · rw [hsame t h]; exact hi.size t
  · by_cases h : t = s
    · subst h; exact hun ht
    · rw [hsame t h] at ht ⊢; exact hi.unused t ht

theorem MemInv.congr (hi : MemInv held m) (hk : m'.kmem = m.kmem)
    (hm : ∀ t, (m'.proc t).pagetable = (m.proc t).pagetable ∧ (m'.proc t).trapframe = (m.proc t).trapframe ∧
      (m'.proc t).sz ≤ TRAPFRAME ∧ ((m'.proc t).state = .unused → (m.proc t).state = .unused)) :
    MemInv held m' := by
  have hu : m'.userPages = m.userPages := Finset.sum_congr rfl fun t _ => by rw [Proc.user, Proc.user, (hm t).1]
  have hc : m'.kernPages = m.kernPages :=
    Finset.sum_congr rfl fun t _ => by rw [Proc.kern, Proc.kern, (hm t).1, (hm t).2.1]
  refine ⟨by rw [hk, hu, hc]; exact hi.ledger, fun t pt ht => ?_, fun t => (hm t).2.2.1, fun t ht => ?_⟩
  · exact hi.trap t pt ((hm t).1 ▸ ht)
  · rw [(hm t).1, (hm t).2.1]; exact hi.unused t ((hm t).2.2.2 ht)

theorem MemInv.setSz {sz : Nat} (hi : MemInv held m) (hsz : sz ≤ TRAPFRAME) : MemInv held (m.setSz s sz) := by
  refine hi.congr rfl fun t => ?_
  by_cases h : t = s
  · subst h; simp [Machine.setSz, Machine.setProc, hsz]
  · simp [Machine.setSz, Machine.setProc, Function.update_of_ne h, hi.size t]

/-! ## The table of one process -/

/-- What the kernel uses apart from the page table of `s`. -/
def Machine.restKern (m : Machine) (s : Slot) : Multiset Nat :=
  (m.proc s).trapframe.elim 0 ({·}) + m.others s Proc.kern

theorem MemInv.accounted {pt : PageTable} (hi : MemInv held m) (hpt : (m.proc s).pagetable = some pt) :
    Accounted held m.kmem pt (m.others s Proc.user) (m.restKern s) := by
  have hl := hi.ledgerAt s
  refine ⟨?_, hi.trap s pt hpt⟩
  rw [Proc.user, Proc.kern, hpt, Option.elim_some, Option.elim_some, add_assoc, add_left_comm] at hl
  exact hl

theorem MemInv.putTable {pt : PageTable} (hi : MemInv held m) (hsame : ∀ t, t ≠ s → m'.proc t = m.proc t)
    (hacc : Accounted held m'.kmem pt (m.others s Proc.user) (m.restKern s))
    (hpt : (m'.proc s).pagetable = some pt) (htf : (m'.proc s).trapframe = (m.proc s).trapframe)
    (hsz : (m'.proc s).sz ≤ TRAPFRAME) (hun : (m'.proc s).state ≠ .unused) : MemInv held m' := by
  refine hi.set hsame ?_ (fun pt' h' => ?_) hsz fun h => absurd h hun
  · rw [Proc.user, Proc.kern, hpt, htf, Option.elim_some, Option.elim_some, add_assoc, add_left_comm]
    exact hacc.ledger
  · obtain rfl : pt = pt' := Option.some.inj (hpt.symm.trans h')
    exact hacc.trap

theorem MemInv.onTable {α : Type} {Q : α → Prop} {f : Kmem → PageTable → Except Stop (α × Kmem × PageTable)}
    (hi : MemInv held m) (hlive : (m.proc s).state ≠ .unused)
    (hf : ∀ pt, (m.proc s).pagetable = some pt →
      Accounted held m.kmem pt (m.others s Proc.user) (m.restKern s) →
      Ensures (f m.kmem pt) fun (r, k', pt') =>
        Accounted held k' pt' (m.others s Proc.user) (m.restKern s) ∧ Q r) :
    Ensures (m.onTable s f) fun (r, m') => MemInv held m' ∧ Q r ∧
      ∃ k pt, m' = { m with kmem := k }.setProc s { m.proc s with pagetable := some pt } := by
  unfold Machine.onTable
  split
  · exact .error
  · rename_i pt hpt
    refine (hf pt hpt (hi.accounted hpt)).bind fun (r, k', pt') ⟨hacc, hq⟩ => .ok ⟨?_, hq, k', pt', rfl⟩
    refine hi.putTable (s := s) (fun t ht => Function.update_of_ne ht ..) hacc ?_ ?_ ?_ ?_
    all_goals simp only [Machine.setProc, Function.update_self]
    · exact hi.size s
    · exact hlive

/-! ## Slots -/

theorem freeMemory_ledger {k : Kmem} {p : Proc} {u c : Multiset Nat} (hsz : p.sz ≤ TRAPFRAME)
    (hl : Ledger held k (p.user + u) (p.kern + c)) :
    Ensures (freeMemory k p) fun k' => Ledger held k' u c := by
  have htable : ∀ {k : Kmem}, Ledger held k (p.user + u) (p.pagetable.elim 0 PageTable.pages + c) →
      Ensures (p.pagetable.elim (.ok k) (procFreepagetable k · p.sz)) fun k' => Ledger held k' u c := by
    intro k hl
    cases hpt : p.pagetable with
    | none =>
        rw [Proc.user, hpt, Option.elim_none, Option.elim_none, zero_add, zero_add] at hl
        exact .ok hl
    | some pt =>
        rw [Proc.user, hpt] at hl
        exact procFreepagetable_ledger hsz hl
  unfold freeMemory
  cases htf : p.trapframe with
  | none =>
      rw [Proc.kern, htf, Option.elim_none, zero_add] at hl
      exact htable hl
  | some tf =>
      rw [Proc.kern, htf, Option.elim_some, add_assoc, Multiset.singleton_add] at hl
      exact Ensures.bind (fun k₁ hk => hl.kfree_kern hk) fun k₁ h₁ => htable h₁

theorem freeproc_memInv (hi : MemInv held m) : Ensures (freeproc m s) (MemInv held) := by
  unfold freeproc
  refine (freeMemory_ledger (hi.size s) (hi.ledgerAt s)).bind fun k hl => .ok ?_
  refine hi.set (s := s) (fun t ht => Function.update_of_ne ht ..) ?_ ?_ ?_ ?_
  all_goals simp only [Machine.setProc, Function.update_self]
  · simpa [Proc.user, Proc.kern, Proc.freed] using hl
  · simp [Proc.freed]
  · simp [Proc.freed]
  · simp [Proc.freed]

end Xv6Net.Procs
