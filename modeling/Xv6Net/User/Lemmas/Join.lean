import Xv6Net.Proc.Lemmas.Rounds
import Xv6Net.User.Ithreads

/-!
# `join_thread` in the kernel

As long as the threads of the process are those in its table, the kernel's `join_thread` returns what the library counts
on, whenever it returns.
-/

namespace Xv6Net.User

open Procs Vm

/-- The threads are those in the table of the process, each with an id of its own. -/
structure Tracks (g : Ithreads) (m : Machine) (s : Slot) : Prop where
  process : (m.proc s).isThread = false
  nodup : g.threads.Nodup
  mem : ∀ id, id ∈ g.threads ↔ ∃ i t, (m.proc s).infantThreads i = some t ∧ ((m.proc t).pid : Int) = id
  once : ∀ i j t u, (m.proc s).infantThreads i = some t → (m.proc s).infantThreads j = some u →
    (m.proc t).pid = (m.proc u).pid → i = j

namespace Tracks

variable {g : Ithreads} {m m' : Machine} {s : Slot} {threadId addr : Nat} {j : Joining} (h : Tracks g m s)
include h

theorem joinFind_eq_none : joinFind m s threadId addr = .ok none ↔ (g.joinThread threadId).1 = -1 := by
  have hmem : joinFind m s threadId addr = .ok none ↔ (threadId : Int) ∉ g.threads := by
    simp only [joinFind, joinLeader, h.process, h.mem, bind, Except.bind, Bool.false_eq_true, if_false, Except.ok.injEq,
      List.findSome?_eq_none_iff]
    constructor
    · rintro hnone ⟨i, t, hi, hid⟩
      have hne := hnone i (List.mem_finRange i)
      simp [hi, Int.ofNat.inj hid] at hne
    · intro hno i _
      cases hi : (m.proc s).infantThreads i with
      | none => rfl
      | some t => exact if_neg fun hid => hno ⟨i, t, hi, congrArg Int.ofNat hid⟩
  rw [hmem, Ithreads.joinThread]
  split <;> simp_all

theorem cleared {i : Fin MAX_THREADS} {t : Slot} (hi : (m.proc s).infantThreads i = some t) :
    Tracks (g.joinThread (m.proc t).pid).2 (clearInfant m s i) s := by
  have hin := (h.mem _).mpr ⟨i, t, hi, rfl⟩
  have hpid : ∀ u, ((clearInfant m s i).proc u).pid = (m.proc u).pid := fun u => by
    obtain ⟨_, hu⟩ := clearInfant_proc m s u i
    rw [hu]
  have htable : ∀ j u, ((clearInfant m s i).proc s).infantThreads j = some u ↔
      j ≠ i ∧ (m.proc s).infantThreads j = some u := fun j u => by
    by_cases hj : j = i <;> simp [clearInfant, Machine.setProc, hj]
  simp only [Ithreads.joinThread, if_pos hin]
  refine ⟨?_, h.nodup.erase _, fun id => ?_, fun j k u v hj hk huv => ?_⟩
  · simpa [clearInfant, Machine.setProc] using h.process
  · rw [h.nodup.mem_erase_iff, h.mem]
    simp only [htable, hpid]
    constructor
    · rintro ⟨hne, j, u, hj, rfl⟩
      refine ⟨j, u, ⟨?_, hj⟩, rfl⟩
      rintro rfl
      exact hne (by rw [Option.some.inj (hi.symm.trans hj)])
    · rintro ⟨j, u, ⟨hne, hj⟩, rfl⟩
      exact ⟨fun he => hne (h.once j i u t hj hi (Int.ofNat.inj he)), j, u, hj, rfl⟩
  · rw [htable] at hj hk
    rw [hpid, hpid] at huv
    exact h.once j k u v hj.2 hk.2 huv

theorem joinRound {α : Type} {r : Int} {mem mem' : α} {copyout : PageTable → List UInt8 → Bool × α}
    (hf : joinFind m s threadId addr = .ok (some j)) (hr : joinRound m mem j copyout = .ok (some (r, m', mem'))) :
    r = -1 ∧ m' = m ∨ r = (g.joinThread threadId).1 ∧ Tracks (g.joinThread threadId).2 m' s := by
  obtain ⟨hentry, hleader, rfl, hid⟩ := joinFind_some hf
  rw [joinLeader, h.process] at hleader
  cases hleader
  refine (joinRound_some hr).imp_right ?_
  rintro ⟨-, hres, hm⟩
  exact ⟨by simp [Ithreads.joinThread, hres, hid, (h.mem _).mpr ⟨_, _, hentry, rfl⟩], hm ▸ h.cleared hentry⟩

end Tracks

end Xv6Net.User
