import Xv6Net.Proc.Lemmas.Threads
import Xv6Net.Proc.Rounds
import Xv6Net.Vm.Lemmas.Copy
import Xv6Net.Vm.Lemmas.Progress

/-!
# Rounds of making and joining a thread

With an unused slot and enough free pages a round makes the thread and joins it. The slot is a zombie after it, so every
round takes a slot.
-/

namespace Xv6Net.Procs

open Kernel Vm Lib

variable {m m' : Machine} {s np : Slot} {pt : PageTable} {r : Round} {rounds : List Round}

/-! ## Making -/

theorem allocproc_returns (hslot : unusedSlot m = some np) (hfree : 4 ≤ m.kmem.freelist.length) :
    Returns (allocproc m) fun (a, m') => a = some np ∧ m'.nextpid = m.nextpid + 1 := by
  obtain ⟨tf, k₁, hk₁⟩ := kalloc_isSome (show 0 < m.kmem.freelist.length by omega)
  have hfree₁ : k₁.freelist.length + 1 = m.kmem.freelist.length := by rw [(kalloc_eq_some hk₁).1, List.length_cons]
  simp only [allocproc, hslot, hk₁]
  refine (procPagetable_returns (show 3 ≤ k₁.freelist.length by omega)).bind fun (a, k₂) ha => ?_
  obtain ⟨new, rfl⟩ := Option.isSome_iff_exists.mp ha
  exact .ok ⟨rfl, rfl⟩

theorem createThread_returns (hready : Ready m s pt) (hslot : unusedSlot m = some np)
    (hfree : threadPages m s ≤ m.kmem.freelist.length) :
    Returns (createThread m s) fun (tid, m') => tid = m.nextpid ∧ ThreadMade m m' s np ∧
      (m'.proc np).pid = m.nextpid ∧ m'.nextpid = m.nextpid + 1 ∧
      m.kmem.freelist.length ≤ m'.kmem.freelist.length + threadPages m s := by
  simp only [threadPages] at hfree ⊢
  obtain ⟨⟨a, m₁⟩, halloc, ⟨rfl, hnext⟩⟩ := allocproc_returns hslot (by omega)
  have ha := (allocproc_result _ halloc).1 np rfl
  obtain ⟨hfree₁, -⟩ := allocproc_takes _ halloc np rfl
  obtain ⟨tf, new, hself, -, hhigh⟩ := ha.self
  have hne := ha.ne hready.runnable
  have hs₁ := ha.others s hne
  obtain ⟨⟨b, k₂, new₂⟩, hshare, ⟨rfl, hfree₂⟩⟩ := uvmshare_returns (k := m₁.kmem) hready.size hready.covers hhigh
    (by omega)
  have hpid : (m₁.proc np).pid = m.nextpid := by rw [hself]
  have htable : (m₁.proc np).pagetable = some new := by rw [hself]
  have hold : (m₁.proc s).pagetable = some pt := by rw [hs₁]; exact hready.pagetable
  have hon : m₁.onTable np (fun k new => uvmshare k pt new (m₁.proc s).sz) =
      .ok (true, { m₁ with kmem := k₂ }.setProc np { m₁.proc np with pagetable := some new₂ }) := by
    simp only [Machine.onTable, htable, hs₁, hshare]
    rfl
  have hmade : Returns (createThread m s) fun r => r.1 = m.nextpid ∧ (r.2.proc np).pid = m.nextpid ∧
      r.2.nextpid = m₁.nextpid ∧ r.2.kmem = k₂ := by
    simp only [createThread, halloc, bind, Except.bind, hold, hon, threadParent]
    simp only [Machine.setProc, Function.update_of_ne hne, hs₁, hready.cwd, hready.isThread, if_true, Bool.false_eq_true,
      if_false, Function.update_self]
    refine .ok ⟨by rw [hpid], ?_, rfl, rfl⟩
    simp only [setInfant, Machine.setProc, Function.update_of_ne hne.symm, Function.update_self]
    exact hpid
  refine (hmade.and (createThread_result hready.runnable hready.isThread)).mono ?_
  rintro ⟨tid, m'⟩ ⟨⟨htid, hpid', hnext', hkmem⟩, hresult⟩
  rcases hresult with ⟨hminus, -⟩ | ⟨np', hthread⟩
  · rw [show tid = m.nextpid from htid] at hminus
    omega
  · obtain rfl : np' = np := Option.some.inj (hthread.slot.symm.trans hslot)
    exact ⟨htid, hthread, hpid', hnext'.trans hnext, by rw [hkmem]; omega⟩

/-! ## Ending and joining -/

theorem threadExit_returns (hinit : s ≠ m.initproc) (hcwd : (m.proc s).cwd = true) (status : Int) :
    Returns (threadExit m s status) fun m' => m'.kmem = m.kmem ∧ m'.nextpid = m.nextpid ∧ m'.initproc = m.initproc := by
  simp only [threadExit, if_neg hinit, iputCwd, hcwd, if_true]
  exact .ok ⟨rfl, rfl, rfl⟩

theorem afterExit_of_ne {t : Slot} (ht : t ≠ s) (status : Int) :
    ∃ parent, Proc.afterExit m s status t = { m.proc t with parent := parent } := by
  refine ⟨if (m.proc t).parent = some s then some m.initproc else (m.proc t).parent, ?_⟩
  simp only [Proc.afterExit, if_neg ht]

/-- The lookup finds a thread by its id, if no other process has it. -/
theorem joinFind_returns {tid : Nat} (hs : (m.proc s).isThread = false) (hpid : ∀ t, (m.proc t).pid = tid ↔ t = np)
    (hentry : ∃ i, (m.proc s).infantThreads i = some np) (addr : Nat) :
    Returns (joinFind m s tid addr) fun j => ∃ i, j = some ⟨s, i, np, tid, addr⟩ := by
  simp only [joinFind, joinLeader, hs, Bool.false_eq_true, if_false, bind, Except.bind]
  refine .ok ?_
  generalize hfind : (List.finRange MAX_THREADS).findSome? _ = found
  cases found with
  | none =>
      obtain ⟨i, hi⟩ := hentry
      have := List.findSome?_eq_none_iff.mp hfind i (List.mem_finRange i)
      simp [hi, (hpid np).mpr rfl] at this
  | some j =>
      obtain ⟨i, -, hi⟩ := List.exists_of_findSome?_eq_some hfind
      refine ⟨i, ?_⟩
      split at hi
      · cases hi
      · next child _ =>
        split at hi
        · next hchild =>
          rw [(hpid child).mp hchild] at hi
          exact hi.symm
        · cases hi

theorem ofInt_toInt (status : Int32) : UInt32.ofInt status.toInt = status.toUInt32 := by
  have hlt := status.toBitVec.isLt
  have hcond := BitVec.toInt_eq_toNat_cond status.toBitVec
  rw [UInt32.ofInt, show status.toInt = status.toBitVec.toInt from rfl]
  apply UInt32.toNat_inj.mp
  rw [UInt32.toNat_ofNat', show status.toUInt32.toNat = status.toBitVec.toNat from rfl]
  split at hcond <;> omega

/-- A thread that has ended is joined with its status. -/
theorem joinRound_returns {j : Joining} {status : Int32} (mem : Memory) (hzombie : (m.proc j.child).state = .zombie)
    (hstatus : (m.proc j.child).xstate = status.toInt) (hpt : (m.proc j.leader).pagetable = some pt) (hown : pt.Own)
    (haddr : j.statusAddr = 0 ∨ pt.Maps j.statusAddr 4) :
    Returns (joinRound m mem j fun pt => copyoutTo pt mem j.statusAddr) fun a =>
      ∃ mem', a = some ((j.threadId : Int), clearInfant m j.leader j.idx, mem') ∧
      (j.statusAddr ≠ 0 → Copied pt mem mem' j.statusAddr (bytes32 status.toUInt32)) := by
  simp only [joinRound, hzombie, if_true, hpt, hstatus, ofInt_toInt]
  split
  · next hzero => exact .ok ⟨mem, rfl, fun h => absurd hzero h⟩
  · next hne =>
    have hmaps : pt.Maps j.statusAddr (bytes32 status.toUInt32).length := haddr.resolve_left hne
    obtain ⟨mem', hcopy⟩ := copyoutTo_of_maps mem hmaps
    rw [hcopy]
    exact .ok ⟨mem', rfl, fun _ => copyoutTo_copied hown.userOwn hcopy⟩

/-! ## One round -/

/-- What a round leaves that has made and joined the thread `np`. -/
structure RoundMade (m : Machine) (s np : Slot) (m' : Machine) : Prop where
  slot : unusedSlot m = some np
  initproc : m'.initproc = m.initproc
  nextpid : m'.nextpid = m.nextpid + 1
  zombie : (m'.proc np).state = .zombie
  pid : (m'.proc np).pid = m.nextpid
  others : ∀ t, t ≠ np → (m'.proc t).state = (m.proc t).state ∧ (m'.proc t).pid = (m.proc t).pid
  caller : ∃ parent infants, m'.proc s = { m.proc s with parent := parent, infantThreads := infants }
  free : m.kmem.freelist.length ≤ m'.kmem.freelist.length + threadPages m s

/-- The same before the join: the thread is in the table. -/
structure ThreadEnded (m : Machine) (s np : Slot) (status : Int) (m' : Machine) : Prop extends RoundMade m s np m' where
  xstate : (m'.proc np).xstate = status
  entry : ∃ i, (m'.proc s).infantThreads i = some np

theorem ThreadMade.others_pid (h : ThreadMade m m' s np) {t : Slot} (ht : t ≠ np) :
    (m'.proc t).state = (m.proc t).state ∧ (m'.proc t).pid = (m.proc t).pid := by
  by_cases hts : t = s
  · rw [hts, h.caller]
    exact ⟨rfl, rfl⟩
  · rw [h.others t ht hts]
    exact ⟨rfl, rfl⟩

theorem Ready.ne (hready : Ready m s pt) (hslot : unusedSlot m = some np) : s ≠ np ∧ np ≠ m.initproc := by
  have hunused := unusedSlot_state hslot
  constructor
  · rintro rfl
    rw [hready.runnable] at hunused
    cases hunused
  · rintro rfl
    exact hready.init hunused

theorem ThreadMade.ends (h : ThreadMade m m' s np) (hready : Ready m s pt) (hpid : (m'.proc np).pid = m.nextpid)
    (hnext : m'.nextpid = m.nextpid + 1)
    (hfree : m.kmem.freelist.length ≤ m'.kmem.freelist.length + threadPages m s) (status : Int) :
    Returns (threadExit m' np status) (ThreadEnded m s np status) := by
  obtain ⟨hsn, hinit⟩ := hready.ne h.slot
  have hexit := threadExit_returns (show np ≠ m'.initproc by rw [h.initproc]; exact hinit) h.cwd status
  refine (hexit.and threadExit_proc).mono fun m₂ ⟨⟨hkmem, hnext₂, hinit₂⟩, _, hproc⟩ => ?_
  obtain ⟨parent, hparent⟩ := afterExit_of_ne (m := m') hsn status
  have hcaller := (hproc s).trans hparent
  rw [h.caller] at hcaller
  refine ⟨⟨h.slot, hinit₂.trans h.initproc, hnext₂.trans hnext, ?_, ?_, fun t ht => ?_, ⟨parent, _, hcaller⟩,
    by rw [hkmem]; exact hfree⟩, ?_, threadIdx (m.proc s).infantThreads, ?_⟩
  · simp [hproc, Proc.afterExit]
  · simp [hproc, Proc.afterExit, hpid]
  · rw [hproc, ← (h.others_pid ht).1, ← (h.others_pid ht).2]
    simp [Proc.afterExit, ht]
  · simp [hproc, Proc.afterExit]
  · rw [hcaller]
    exact Function.update_self ..

/-- The id of the thread is new. -/
theorem RoundMade.pid_iff (h : RoundMade m s np m') (hready : Ready m s pt) (t : Slot) :
    (m'.proc t).pid = m.nextpid ↔ t = np := by
  by_cases ht : t = np
  · simp [ht, h.pid]
  · have := hready.pids t
    simp only [ht, iff_false, (h.others t ht).2]
    omega

theorem clearInfant_proc (m : Machine) (p t : Slot) (i : Fin MAX_THREADS) :
    ∃ infants, (clearInfant m p i).proc t = { m.proc t with infantThreads := infants } := by
  by_cases ht : t = p
  · exact ⟨_, by rw [ht]; exact Function.update_self ..⟩
  · exact ⟨_, Function.update_of_ne ht ..⟩

theorem RoundMade.cleared (h : RoundMade m s np m') (i : Fin MAX_THREADS) : RoundMade m s np (clearInfant m' s i) := by
  obtain ⟨infantsNp, hnp⟩ := clearInfant_proc m' s np i
  obtain ⟨infantsS, hs⟩ := clearInfant_proc m' s s i
  obtain ⟨parent, infants, hcaller⟩ := h.caller
  refine ⟨h.slot, h.initproc, h.nextpid, by rw [hnp]; exact h.zombie, by rw [hnp]; exact h.pid, fun t ht => ?_,
    ⟨parent, infantsS, by rw [hs, hcaller]⟩, h.free⟩
  obtain ⟨_, ht'⟩ := clearInfant_proc m' s t i
  rw [ht']
  exact h.others t ht

theorem threadRound_returns (hready : Ready m s pt) (hslot : unusedSlot m = some np)
    (hfree : threadPages m s ≤ m.kmem.freelist.length) (haddr : r.statusAddr = 0 ∨ pt.Maps r.statusAddr 4) :
    Returns (threadRound s m r) fun e => Joined pt r e ∧ RoundMade m s np e.machine := by
  unfold threadRound
  refine (createThread_returns hready hslot hfree).bind fun (tid, m₁) ⟨htid, hmade, hpid, hnext, hpages⟩ => ?_
  subst htid
  simp only [show ¬ ((m.nextpid : Int) < 0) by omega, if_false, hslot, Int.toNat_natCast]
  refine (hmade.ends hready hpid hnext hpages r.status.toInt).bind fun m₂ hended => ?_
  obtain ⟨parent, infants, hcaller⟩ := hended.caller
  have hthread : (m₂.proc s).isThread = false := by rw [hcaller]; exact hready.isThread
  have hpt : (m₂.proc s).pagetable = some pt := by rw [hcaller]; exact hready.pagetable
  refine (joinFind_returns hthread (hended.toRoundMade.pid_iff hready) hended.entry r.statusAddr).bind fun j ⟨i, hj⟩ => ?_
  subst hj
  refine (joinRound_returns r.mem hended.zombie hended.xstate hpt hready.own haddr).bind
    fun a ⟨mem', ha, hcopied⟩ => ?_
  subst ha
  exact .ok ⟨⟨Int.natCast_nonneg _, rfl, hcopied⟩, hended.toRoundMade.cleared i⟩

theorem threadRound_full (hslot : unusedSlot m = none) : threadRound s m r = .ok ⟨-1, none, m, r.mem⟩ := by
  simp [threadRound, createThread, allocproc, hslot, bind, Except.bind]

/-! ## Runs of rounds -/

theorem RoundMade.ready (h : RoundMade m s np m') (hready : Ready m s pt) :
    Ready m' s pt ∧ threadPages m' s = threadPages m s := by
  obtain ⟨parent, infants, hcaller⟩ := h.caller
  obtain ⟨hrun, hthread, hcwd, hpt, hcovers, hsize, hown, hinit, hpids⟩ := hready
  have hunused := unusedSlot_state h.slot
  refine ⟨⟨?_, ?_, ?_, ?_, ?_, ?_, hown, ?_, fun t => ?_⟩, by simp only [threadPages, hcaller]⟩
  any_goals (rw [hcaller]; assumption)
  · rw [h.initproc]
    by_cases ht : m.initproc = np
    · rw [ht, h.zombie]
      decide
    · rw [(h.others _ ht).1]
      exact hinit
  · rw [h.nextpid]
    by_cases ht : t = np
    · rw [ht, h.pid]
      omega
    · have := hpids t
      rw [(h.others t ht).2]
      omega

theorem RoundMade.unused (h : RoundMade m s np m') : m'.unused = m.unused.erase np ∧ np ∈ m.unused := by
  have hunused := unusedSlot_state h.slot
  refine ⟨?_, by simp [Machine.unused, hunused]⟩
  ext t
  by_cases ht : t = np
  · simp [Machine.unused, ht, h.zombie]
  · simp [Machine.unused, ht, (h.others t ht).1]

theorem RoundMade.inUse (h : RoundMade m s np m') : m'.inUse = insert np m.inUse ∧ np ∉ m.inUse := by
  have hunused := unusedSlot_state h.slot
  refine ⟨?_, by simp [Machine.inUse, hunused]⟩
  ext t
  by_cases ht : t = np
  · simp [Machine.inUse, ht, h.zombie]
  · simp [Machine.inUse, ht, (h.others t ht).1]

theorem unusedSlot_eq_none_iff : unusedSlot m = none ↔ m.unused.card = 0 := by
  simp [unusedSlot, Machine.unused, Finset.filter_eq_empty_iff]

/-- A round takes one of the unused slots, and fails without any. -/
theorem eachRound_joined_iff (hready : Ready m s pt)
    (haddr : ∀ r ∈ rounds, r.statusAddr = 0 ∨ pt.Maps r.statusAddr 4)
    (hfree : rounds.length * threadPages m s ≤ m.kmem.freelist.length) :
    EachRound (fun _ => Joined pt) s m rounds ↔ rounds.length ≤ m.unused.card := by
  induction rounds generalizing m with
  | nil => simp [EachRound]
  | cons r rounds ih =>
      obtain ⟨hr, haddr⟩ := List.forall_mem_cons.mp haddr
      rw [List.length_cons, Nat.succ_mul] at hfree
      rw [EachRound, List.length_cons]
      cases hslot : unusedSlot m with
      | none =>
          rw [unusedSlot_eq_none_iff.mp hslot]
          constructor
          · rintro ⟨e, he, hjoined, -⟩
            rw [threadRound_full hslot] at he
            cases he
            exact absurd hjoined.made (show ¬ (0 : Int) ≤ -1 by decide)
          · intro h
            omega
      | some np =>
          obtain ⟨e, he, hjoined, hmade⟩ := threadRound_returns hready hslot (by omega) hr
          obtain ⟨hready', hpages⟩ := hmade.ready hready
          obtain ⟨hunused, hmem⟩ := hmade.unused
          have hfree' := hmade.free
          have hcard := Finset.card_erase_add_one hmem
          rw [← hunused] at hcard
          have hrest := ih hready' haddr (by rw [hpages]; omega)
          constructor
          · rintro ⟨e', he', -, hall⟩
            cases he.symm.trans he'
            have := hrest.mp hall
            omega
          · intro h
            exact ⟨e, he, hjoined, hrest.mpr (by omega)⟩

/-- The number of slots in use stays the same only where no thread is made. -/
theorem eachRound_kept_iff (hready : Ready m s pt)
    (haddr : ∀ r ∈ rounds, r.statusAddr = 0 ∨ pt.Maps r.statusAddr 4)
    (hfree : rounds.length * threadPages m s ≤ m.kmem.freelist.length) :
    EachRound (fun m _ e => e.machine.inUse.card = m.inUse.card) s m rounds ↔ rounds = [] ∨ m.unused.card = 0 := by
  cases hslot : unusedSlot m with
  | none =>
      have hkept : EachRound (fun m _ e => e.machine.inUse.card = m.inUse.card) s m rounds := by
        clear haddr hfree
        induction rounds with
        | nil => exact trivial
        | cons r rounds ih => exact ⟨_, threadRound_full hslot, rfl, ih⟩
      simp only [hkept, unusedSlot_eq_none_iff.mp hslot, or_true]
  | some np =>
      have hpos : m.unused.card ≠ 0 := fun h => by
        rw [unusedSlot_eq_none_iff.mpr h] at hslot
        cases hslot
      cases rounds with
      | nil => simp [EachRound]
      | cons r rounds =>
          rw [List.length_cons, Nat.succ_mul] at hfree
          obtain ⟨e, he, -, hmade⟩ := threadRound_returns hready hslot (by omega) (haddr r List.mem_cons_self)
          obtain ⟨huse, hnot⟩ := hmade.inUse
          have hcard := Finset.card_insert_of_notMem hnot
          rw [← huse] at hcard
          simp only [reduceCtorEq, hpos, or_self, iff_false]
          rintro ⟨e', he', hkept, -⟩
          cases he.symm.trans he'
          omega

end Xv6Net.Procs
