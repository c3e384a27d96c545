import Xv6Net.Proc.Lemmas.Memory
import Xv6Net.Vm.Lemmas.Room

/-!
# What `allocproc` returns
-/

namespace Xv6Net.Procs

open Kernel Vm Lib

variable {held : Nat → Prop} {m m' : Machine} {s np : Slot}

/-- A slot was taken: it has a trapframe and a page table without user memory, and its other fields are the ones
that were left in it. -/
structure Allocated (m m' : Machine) (np : Slot) : Prop where
  slot : unusedSlot m = some np
  initproc : m'.initproc = m.initproc
  others : ∀ t, t ≠ np → m'.proc t = m.proc t
  self : ∃ tf pt, m'.proc np = { m.proc np with
      pid := m.nextpid, state := .used, trapframe := some tf, pagetable := some pt
      infantThreads := clearInfants (m.proc np).infantThreads } ∧
    USER_PAGES ∈ pt.leaves ∧ ∀ i, i < USER_PAGES → i ∉ pt.leaves

/-- No slot was taken, though one may have been reset. -/
structure NotAllocated (m m' : Machine) : Prop where
  initproc : m'.initproc = m.initproc
  reset : ∀ t, m'.proc t = m.proc t ∨ (m.proc t).state = .unused ∧ m'.proc t = (m.proc t).freed

theorem unusedSlot_state (h : unusedSlot m = some s) : (m.proc s).state = .unused := by
  simpa using List.find?_some h

theorem Allocated.ne (ha : Allocated m m' np) (hrun : (m.proc s).state = .runnable) : s ≠ np := by
  rintro rfl
  have := unusedSlot_state ha.slot
  rw [hrun] at this
  cases this

theorem freeproc_proc : Ensures (freeproc m s) fun m' => m'.initproc = m.initproc ∧
    m'.proc = Function.update m.proc s (m.proc s).freed := by
  unfold freeproc
  exact Ensures.bind_any fun _ => .ok ⟨rfl, rfl⟩

theorem allocproc_result : Ensures (allocproc m) fun (r, m') =>
    (∀ np, r = some np → Allocated m m' np) ∧ (r = none → NotAllocated m m') := by
  unfold allocproc
  split
  · exact .ok ⟨fun np h => absurd h.symm (Option.some_ne_none np), fun _ => ⟨rfl, fun _ => .inl rfl⟩⟩
  · rename_i s hs
    have hun := unusedSlot_state hs
    -- the slot is reset in the same way wherever an allocation fails
    have hreset : ∀ {m₁ : Machine}, m₁.initproc = m.initproc → (∀ t, t ≠ s → m₁.proc t = m.proc t) →
        (m₁.proc s).freed = (m.proc s).freed → Ensures (freeproc m₁ s >>= fun m' => .ok ((none : Option Slot), m'))
          fun r => (∀ np, r.1 = some np → Allocated m r.2 np) ∧ (r.1 = none → NotAllocated m r.2) := by
      intro m₁ hin hsame hfr
      refine freeproc_proc.bind ?_
      rintro m' ⟨hi, hp⟩
      refine .ok ⟨fun np h => absurd h.symm (Option.some_ne_none np), fun _ => ⟨hi.trans hin, fun t => ?_⟩⟩
      by_cases ht : t = s
      · subst ht; exact .inr ⟨hun, by rw [hp, Function.update_self, hfr]⟩
      · exact .inl (by rw [hp, Function.update_of_ne ht, hsame t ht])
    dsimp only
    split
    · exact hreset rfl (fun t ht => Function.update_of_ne ht ..) (by simp [Machine.setProc, Proc.freed])
    · rename_i tf k hk
      refine procPagetable_leaves.bind ?_
      rintro ⟨r, k₁⟩ hr
      cases r with
      | none => exact hreset rfl (fun t ht => Function.update_of_ne ht ..) (by simp [Machine.setProc, Proc.freed])
      | some pt =>
          refine .ok ⟨fun np hnp => ?_, fun h => absurd h (Option.some_ne_none s)⟩
          obtain rfl := Option.some.inj hnp
          exact ⟨hs, rfl, fun t ht => Function.update_of_ne ht .., tf, pt,
            by simp [Machine.setProc], hr pt rfl⟩

theorem allocproc_takes : Ensures (allocproc m) fun (r, m') => ∀ np, r = some np →
    m'.kmem.freelist.length + 4 = m.kmem.freelist.length ∧
      ∀ pt, (m'.proc np).pagetable = some pt → 0 ∉ pt.dirs := by
  unfold allocproc
  split
  · exact .ok fun _ h => nomatch h
  · rename_i s hs
    dsimp only
    split
    · exact Ensures.bind_any fun _ => .ok fun _ h => nomatch h
    · rename_i tf k hk
      have hfree : k.freelist.length + 1 = m.kmem.freelist.length := by
        rw [(kalloc_eq_some hk).1, List.length_cons]
      refine procPagetable_takes.bind fun (r, k₁) hr => ?_
      cases r with
      | none => exact Ensures.bind_any fun _ => .ok fun _ h => nomatch h
      | some pt =>
          obtain ⟨hfree₁, hdir⟩ := hr pt rfl
          refine .ok fun np hnp => ?_
          obtain rfl := Option.some.inj hnp
          simp only [Machine.setProc, Function.update_self, Option.some.injEq]
          exact ⟨by omega, fun _ h => h ▸ hdir⟩

theorem allocproc_memInv (hi : MemInv held m) : Ensures (allocproc m) fun (_, m') => MemInv held m' := by
  unfold allocproc
  split
  · exact .ok hi
  · rename_i s hs
    obtain ⟨htf, hpt⟩ := hi.unused s (unusedSlot_state hs)
    have hl := hi.ledgerAt s
    rw [Proc.user, Proc.kern, htf, hpt, Option.elim_none, Option.elim_none, Option.elim_none, zero_add, add_zero,
      zero_add] at hl
    dsimp only
    split
    · rename_i k hk
      refine (freeproc_memInv (hi.set (s := s) (fun t ht => Function.update_of_ne ht ..) ?_ ?_ ?_ ?_)).bind
        fun m' h => .ok h
      all_goals simp only [Machine.setProc, Function.update_self]
      · simpa [Proc.user, Proc.kern, hpt] using hl.kalloc_none hk
      · simp [hpt]
      · exact hi.size s
      · simp
    · rename_i tf k hk
      refine ((procPagetable_ledger (hl.kalloc hk)).and procPagetable_leaves).bind ?_
      rintro ⟨r, k₁⟩ ⟨hl₁, hr⟩
      cases r with
      | none =>
          refine (freeproc_memInv (hi.set (s := s) (fun t ht => Function.update_of_ne ht ..) ?_ ?_ ?_ ?_)).bind
            fun m' h => .ok h
          all_goals simp only [Machine.setProc, Function.update_self]
          · simpa [Proc.user, Proc.kern] using hl₁
          · simp
          · exact hi.size s
          · simp
      | some pt =>
          obtain ⟨htrap, hhigh⟩ := hr pt rfl
          refine .ok (hi.set (s := s) (fun t ht => Function.update_of_ne ht ..) ?_ ?_ ?_ ?_)
          all_goals simp only [Machine.setProc, Function.update_self]
          · simpa [Proc.user, Proc.kern, PageTable.user_eq_zero_of_high hhigh, Multiset.singleton_add, add_comm,
              add_left_comm, add_assoc] using hl₁
          · intro pt' hpt'
            obtain rfl := Option.some.inj hpt'
            exact htrap
          · exact hi.size s
          · simp

end Xv6Net.Procs
