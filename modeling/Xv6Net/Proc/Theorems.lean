import Xv6Net.Proc.Lemmas.Family
import Xv6Net.Proc.Lemmas.Grow
import Xv6Net.Proc.Lemmas.Rounds
import Xv6Net.Proc.Lemmas.Solo
import Xv6Net.Proc.Lemmas.Threaded
import Xv6Net.Proc.Lemmas.Threads

/-!
# Properties of processes and threads
-/

namespace Xv6Net.Procs

open Kernel Vm Lib

/-- Memory with thirty-two free pages, for concrete runs. -/
def sampleKmem : Kmem where
  kend := PHYSTOP - 32 * PGSIZE
  freelist := (List.range 32).map fun i => PHYSTOP - (i + 1) * PGSIZE
  refCounter := fun _ => 0
  kernbase_le := by decide
  valid := by decide

/-- A machine after `userinit`. -/
def Machine.sample : Machine :=
  match userinit (.boot sampleKmem KERNBASE) 52 with
  | .ok m => m
  | .error _ => .boot sampleKmem KERNBASE

theorem Machine.sample_made : userinit (.boot sampleKmem KERNBASE) 52 = .ok Machine.sample := by
  have hok : (userinit (.boot sampleKmem KERNBASE) 52).isOk = true := by decide +kernel
  unfold Machine.sample
  cases h : userinit (.boot sampleKmem KERNBASE) 52 with
  | ok m => rfl
  | error e => rw [h] at hok; cases hok

theorem Machine.sample_firstProcess : Machine.sample.FirstProcess sampleKmem := by
  have hmapped : ((Machine.sample.proc Machine.sample.initproc).pagetable.any fun pt => 0 ∈ pt.leaves) = true := by
    decide +kernel
  obtain ⟨pt, hpt, h0⟩ := (Option.any_eq_true _ _).mp hmapped
  exact ⟨⟨_, _, Machine.sample_made⟩, pt, hpt, of_decide_eq_true h0⟩

/-! ## References and mappings -/

/-- In every run in which no thread adds or removes a page and no `create_thread` fails halfway, the reference count
of a page mapped for users is the number of its mappings, and pages are free as soon as they are not mapped. -/
theorem pages_exact_of_calm {k : Kmem} {m₀ m : Machine} {acts : List ProcAct} (hk : k.freelist.Nodup)
    (hf : m₀.FirstProcess k) (hc : RunMeets procStep PagesCalm m₀ acts) (hr : run procStep m₀ acts = some m) :
    m.PagesExact fun p => k.Ram p ∧ p ∉ k.freelist := by
  have hstep : ∀ m a m', MemInv (fun p => k.Ram p ∧ p ∉ k.freelist) m → PagesCalm m a → procStep m a = some m' →
      MemInv (fun p => k.Ram p ∧ p ∉ k.freelist) m' := fun m a m' hi hg hs => procStep_memInv hi hg hs
  exact (run_keeps hstep (FirstProcess.memInv hk hf) hc hr).pagesExact

/-- A fork, a thread of the child, a child that grows, and the end of both. -/
def calmActs : List ProcAct :=
  [.fork 0, .createThread 1, .growproc 1 4096, .threadExit 2 7, .wait 1 0, .exit 1 0, .wait 0 0]

def calmFamily : Sample procStep Machine.sample calmActs PagesCalm (fun _ => True) := .eval (by decide +kernel)

theorem pages_exact_of_calm_family :
    ∃ m, run procStep Machine.sample calmActs = some m ∧
      m.PagesExact fun p => sampleKmem.Ram p ∧ p ∉ sampleKmem.freelist := by
  obtain ⟨m, hcalm, hm, -⟩ := calmFamily
  exact ⟨m, hm, pages_exact_of_calm (by decide) Machine.sample_firstProcess hcalm hm⟩

def threadGrows : Sample procStep Machine.sample [.createThread 0, .growproc 1 4096] (fun _ _ => True)
    (fun m => m.mappings (PHYSTOP - 14 * PGSIZE) = 2 ∧ m.kmem.refCounter (pageNum (PHYSTOP - 14 * PGSIZE)) = 1) :=
  .eval (by decide +kernel)

def grownThreadEnds : Sample procStep Machine.sample [.createThread 0, .growproc 1 4096, .threadExit 1 0, .wait 0 0]
    (fun _ _ => True)
    (fun m => 0 < m.mappings (PHYSTOP - 14 * PGSIZE) ∧ PHYSTOP - 14 * PGSIZE ∈ m.kmem.freelist) :=
  .eval (by decide +kernel)

/-- A thread of the first process grows by a page. The page has one reference and two mappings, and when the thread
is gone the page is free and still mapped by the first process. -/
theorem thread_growth_refs_fail :
    (∃ m, run procStep Machine.sample [.createThread 0, .growproc 1 4096] = some m ∧
      ∃ p, m.mappings p = 2 ∧ m.kmem.refCounter (pageNum p) = 1) ∧
    ∃ m, run procStep Machine.sample [.createThread 0, .growproc 1 4096, .threadExit 1 0, .wait 0 0] = some m ∧
      ¬ m.PagesExact fun p => sampleKmem.Ram p ∧ p ∉ sampleKmem.freelist := by
  obtain ⟨m₁, -, hm₁, hp₁⟩ := threadGrows
  obtain ⟨m₂, -, hm₂, hmap, hfree⟩ := grownThreadEnds
  exact ⟨⟨m₁, hm₁, _, hp₁⟩, m₂, hm₂, fun h => h.not_free _ hmap hfree⟩

/-! ## One address space -/

/-- In every run without a `create_thread`, a process that can run has no threads and maps the pages below its size. -/
theorem solo_of_no_thread {k : Kmem} {m₀ m : Machine} {acts : List ProcAct} {s : Slot} (hk : k.freelist.Nodup)
    (hf : m₀.FirstProcess k) (hn : RunMeets procStep MakesNoThread m₀ acts) (hr : run procStep m₀ acts = some m)
    (hs : (m.proc s).state = .runnable) : m.Solo s := by
  have hstep : ∀ m a m', MemInv (fun p => k.Ram p ∧ p ∉ k.freelist) m ∧ m.Single → MakesNoThread m a →
      procStep m a = some m' → MemInv (fun p => k.Ram p ∧ p ∉ k.freelist) m' ∧ m'.Single :=
    fun m a m' ⟨hi, hm⟩ ha h => hm.procStep hi ha h
  obtain ⟨hi, hm⟩ := run_keeps hstep ⟨FirstProcess.memInv hk hf, FirstProcess.single hf⟩ hn hr
  exact hm.solo hi hs

/-- A child that grows and then shrinks. -/
def grownChild : Sample procStep Machine.sample [.fork 0, .growproc 1 5000, .growproc 1 (-300)] (fun _ _ => True)
    (fun m => (m.proc 1).state = .runnable ∧ (m.proc 1).sz = 8796) := .eval (by decide +kernel)

theorem solo_of_no_thread_child : grownChild.last.Solo 1 ∧ (grownChild.last.proc 1).sz = 8796 := by
  refine ⟨solo_of_no_thread (by decide) Machine.sample_firstProcess ?_ grownChild.runs grownChild.holds.1, grownChild.holds.2⟩
  exact ⟨trivial, fun _ _ => ⟨trivial, fun _ _ => ⟨trivial, fun _ _ => trivial⟩⟩⟩

/-- In every run in which only threads change the size of the group, and none grows within a page, the leader and its
threads have one size and the same pages. -/
theorem group_agrees_of_together {leader : Slot} {m₀ m : Machine} {acts : List GroupAct} (hs : m₀.Solo leader)
    (hg : RunMeets (groupStep leader) GrowsTogether m₀ acts) (hr : run (groupStep leader) m₀ acts = some m) :
    m.Agree leader := by
  have hstep : ∀ m a m', GroupInv leader m → GrowsTogether m a → groupStep leader m a = some m' →
      GroupInv leader m' := fun m a m' hi ha h => groupStep_groupInv hi ha h
  exact (run_keeps hstep hs.groupInv hg hr).agree

theorem Machine.sample_solo : Machine.sample.Solo 0 :=
  (FirstProcess.single sample_firstProcess).solo (FirstProcess.memInv (by decide) sample_firstProcess) (by decide +kernel)

def growAndShrink : Sample (groupStep 0) Machine.sample [.create, .create, .grow 1 5000, .grow 2 (-300)] GrowsTogether
    (fun _ => True) := .eval (by decide +kernel)

/-- Two threads; one of them grows by more than a page, and the other shrinks. -/
theorem group_agrees_of_together_two :
    ∃ m, run (groupStep 0) Machine.sample [.create, .create, .grow 1 5000, .grow 2 (-300)] = some m ∧ m.Agree 0 := by
  obtain ⟨m, htogether, hm, -⟩ := growAndShrink
  exact ⟨m, hm, group_agrees_of_together Machine.sample_solo htogether hm⟩

/-- The first process and its first thread differ in size. -/
def SizesDiffer (m : Machine) : Prop :=
  (m.proc 0).infantThreads 0 = some 1 ∧ (m.proc 1).state = .runnable ∧ (m.proc 1).sz ≠ (m.proc 0).sz

instance (m : Machine) : Decidable (SizesDiffer m) := inferInstanceAs (Decidable (_ ∧ _ ∧ _))

theorem SizesDiffer.not_agree {m : Machine} (h : SizesDiffer m) : ¬ m.Agree 0 := by
  obtain ⟨hin, hlive, hsz⟩ := h
  exact fun ha => hsz (ha.size _ 1 hin (by rw [hlive]; exact ⟨by decide, by decide⟩))

def leaderGrows : Sample (groupStep 0) Machine.sample [.create, .grow 0 4096] (fun _ _ => True) SizesDiffer :=
  .eval (by decide +kernel)

def growsInPage : Sample (groupStep 0) Machine.sample [.create, .grow 1 5000, .grow 1 100] (fun _ _ => True)
    SizesDiffer := .eval (by decide +kernel)

/-- The leader grows and its thread does not; or a thread grows within its last page, and only its own size changes. -/
theorem group_growth_fails :
    (∃ m, run (groupStep 0) Machine.sample [.create, .grow 0 4096] = some m ∧ ¬ m.Agree 0) ∧
    ∃ m, run (groupStep 0) Machine.sample [.create, .grow 1 5000, .grow 1 100] = some m ∧ ¬ m.Agree 0 := by
  exact ⟨⟨_, leaderGrows.runs, leaderGrows.holds.not_agree⟩, _, growsInPage.runs, growsInPage.holds.not_agree⟩

/-! ## Isolation of thread groups -/

/-- In every run in which new processes get clean slots, threads make no threads and processes end after their
threads, a growing thread leaves every process of another group alone. -/
theorem thread_growth_isolated_of_apart {k : Kmem} {trampoline initcode : Nat} {m₀ : Machine} {f : Family}
    {acts : List ProcAct} (h₀ : userinit (.boot k trampoline) initcode = .ok m₀)
    (hk : RunMeets familyStep KeepsApart (.start m₀) acts) (hr : run familyStep (.start m₀) acts = some f) :
    f.Isolated := by
  have hstep : ∀ f a f', FamilyInv f.machine f.group → KeepsApart f a → familyStep f a = some f' →
      FamilyInv f'.machine f'.group := fun f a f' hi ha h => familyStep_familyInv hi ha h
  exact (run_keeps hstep (userinit_result m₀ h₀).familyInv hk hr).isolated

def twoThreadsOfChild : Sample familyStep (.start Machine.sample)
    [.fork 0, .createThread 1, .createThread 1, .threadExit 3 0, .wait 1 0] KeepsApart
    (fun f => (f.machine.proc 2).isThread = true) := .eval (by decide +kernel)

/-- A child with two threads, one of which has ended and is reaped; the other one is live. -/
theorem thread_growth_isolated_of_apart_child :
    ∃ f, run familyStep (.start Machine.sample)
        [.fork 0, .createThread 1, .createThread 1, .threadExit 3 0, .wait 1 0] = some f ∧
      (f.machine.proc 2).isThread = true ∧ f.Isolated := by
  obtain ⟨f, hapart, hf, ht⟩ := twoThreadsOfChild
  exact ⟨f, hf, ht, thread_growth_isolated_of_apart Machine.sample_made hapart hf⟩

/-- The thread `t` grows, and `s`, which is of another group, changes its size. -/
def GrowsOther (t s : Slot) (f : Family) : Prop :=
  (growproc f.machine t 4096).toOption.any (fun (_, m') => (f.machine.proc t).state = .runnable ∧
    (f.machine.proc t).isThread = true ∧ (f.machine.proc s).state ≠ .unused ∧ f.group s ≠ f.group t ∧
    (m'.proc s).sz ≠ (f.machine.proc s).sz) = true

instance (t s : Slot) (f : Family) : Decidable (GrowsOther t s f) := inferInstanceAs (Decidable (_ = _))

theorem GrowsOther.not_isolated {t s : Slot} {f : Family} (h : GrowsOther t s f) : ¬ f.Isolated := by
  obtain ⟨⟨r, m'⟩, hm, hq⟩ := (Option.any_eq_true _ _).mp h
  obtain ⟨hrun, hth, huse, hg, hsz⟩ := of_decide_eq_true hq
  have hgrow : growproc f.machine t 4096 = .ok (r, m') := by
    cases hc : growproc f.machine t 4096 with
    | error e => rw [hc] at hm; cases hm
    | ok p => rw [hc] at hm; exact congrArg _ (Option.some.inj hm)
  exact fun hi => hsz (hi t 4096 r m' hrun hth hgrow s huse hg).2

def leaderEnds : Sample familyStep (.start Machine.sample) [.fork 0, .createThread 1, .exit 1 0] (fun _ _ => True)
    (GrowsOther 2 0) := .eval (by decide +kernel)

def threadOfThread : Sample familyStep (.start Machine.sample) [.fork 0, .createThread 1, .createThread 2]
    (fun _ _ => True) (GrowsOther 3 0) := .eval (by decide +kernel)

def slotTakenAgain : Sample familyStep (.start Machine.sample)
    [.fork 0, .createThread 1, .createThread 1, .threadExit 2 0, .wait 1 0, .fork 0] (fun _ _ => True)
    (GrowsOther 3 2) := .eval (by decide +kernel)

/-- The first process, or a child of it in a slot that a thread has left, grows with the thread of another process:
after the leader has ended, with a thread made by a thread, and where a slot is taken again. -/
theorem thread_growth_escapes :
    (∃ f, run familyStep (.start Machine.sample) [.fork 0, .createThread 1, .exit 1 0] = some f ∧ ¬ f.Isolated) ∧
    (∃ f, run familyStep (.start Machine.sample) [.fork 0, .createThread 1, .createThread 2] = some f ∧
      ¬ f.Isolated) ∧
    ∃ f, run familyStep (.start Machine.sample)
      [.fork 0, .createThread 1, .createThread 1, .threadExit 2 0, .wait 1 0, .fork 0] = some f ∧ ¬ f.Isolated := by
  exact ⟨⟨_, leaderEnds.runs, leaderEnds.holds.not_isolated⟩, ⟨_, threadOfThread.runs,
    threadOfThread.holds.not_isolated⟩, _, slotTakenAgain.runs, slotTakenAgain.holds.not_isolated⟩

/-! ## Thread tables -/

/-- In every run in which threads make no threads, threads are joined before `wait` comes to them and before their
process ends, and a `join_thread` that has slept finds its entry as it was, the thread tables are well-formed. -/
theorem thread_tables_of_joined {k : Kmem} {trampoline initcode : Nat} {m₀ : Machine} {c : Crew}
    {acts : List CrewAct} (h₀ : userinit (.boot k trampoline) initcode = .ok m₀)
    (hj : RunMeets crewStep JoinsFirst (.start m₀) acts) (hr : run crewStep (.start m₀) acts = some c) :
    c.WellFormed := by
  have hstep : ∀ c a c', TableInv c.machine c.group c.made → JoinsFirst c a → crewStep c a = some c' →
      TableInv c'.machine c'.group c'.made := fun c a c' h hj hs => crewStep_tableInv h hj hs
  exact (run_keeps hstep (userinit_result m₀ h₀).tableInv hj hr).wellFormed

def joinedChild : Sample crewStep (.start Machine.sample)
    [.call (.fork 0), .call (.createThread 1), .joinThread 1 3 0, .call (.threadExit 2 7), .wakeup 1,
      .call (.wait 1 0), .call (.exit 1 0), .call (.wait 0 0), .call (.createThread 0)] JoinsFirst
    (fun c => (c.machine.proc 0).infantThreads 0 = some 1) := .eval (by decide +kernel)

/-- A child waits for its thread and reaps it before it ends, and then its slot is taken again. -/
theorem thread_tables_of_joined_child :
    ∃ c, run crewStep (.start Machine.sample)
        [.call (.fork 0), .call (.createThread 1), .joinThread 1 3 0, .call (.threadExit 2 7), .wakeup 1,
          .call (.wait 1 0), .call (.exit 1 0), .call (.wait 0 0), .call (.createThread 0)] = some c ∧
      (c.machine.proc 0).infantThreads 0 = some 1 ∧ c.WellFormed := by
  obtain ⟨c, hjoins, hc, hentry⟩ := joinedChild
  exact ⟨c, hc, hentry, thread_tables_of_joined Machine.sample_made hjoins hc⟩

def waitedThread : Sample crewStep (.start Machine.sample)
    [.call (.createThread 0), .call (.threadExit 1 0), .call (.wait 0 0)] (fun _ _ => True)
    (fun c => (c.machine.proc 0).state ≠ .unused ∧ (c.machine.proc 0).infantThreads 0 = some 1 ∧
      (c.machine.proc 1).state = .unused) := .eval (by decide +kernel)

def reparentedThread : Sample crewStep (.start Machine.sample)
    [.call (.fork 0), .call (.createThread 1), .call (.exit 1 0)] (fun _ _ => True)
    (fun c => (c.machine.proc 1).state ≠ .unused ∧ (c.machine.proc 1).infantThreads 0 = some 2 ∧
      (c.machine.proc 2).parent = some 0) := .eval (by decide +kernel)

def misplacedThread : Sample crewStep (.start Machine.sample)
    [.call (.fork 0), .call (.createThread 1), .call (.createThread 2)] (fun _ _ => True)
    (fun c => (c.machine.proc 3).state.Live ∧ (c.machine.proc 3).isThread = true ∧
      (c.machine.proc 3).parent = some 0 ∧ (c.machine.proc 0).pid ≠ c.group 3) := .eval (by decide +kernel)

def clearedThread : Sample crewStep (.start Machine.sample)
    [.call (.fork 0), .call (.createThread 1), .call (.createThread 1), .joinThread 3 3 0, .call (.threadExit 2 0),
      .joinThread 1 3 0, .call (.createThread 1), .wakeup 3] (fun _ _ => True)
    (fun c => (c.machine.proc 4).state.Live ∧ (c.machine.proc 4).isThread = true ∧
      (c.machine.proc 4).parent = some 1 ∧ ∀ i, (c.machine.proc 1).infantThreads i ≠ some 4) :=
  .eval (by decide +kernel)

/-- `wait` frees a thread that is still in the table; a process ends and its thread gets another parent; a thread
enters its thread in the table of another process; and a `join_thread` that wakes up clears the entry of a new
thread. -/
theorem thread_tables_fail :
    (∃ c, run crewStep (.start Machine.sample)
      [.call (.createThread 0), .call (.threadExit 1 0), .call (.wait 0 0)] = some c ∧ ¬ c.WellFormed) ∧
    (∃ c, run crewStep (.start Machine.sample)
      [.call (.fork 0), .call (.createThread 1), .call (.exit 1 0)] = some c ∧ ¬ c.WellFormed) ∧
    (∃ c, run crewStep (.start Machine.sample)
      [.call (.fork 0), .call (.createThread 1), .call (.createThread 2)] = some c ∧ ¬ c.WellFormed) ∧
    ∃ c, run crewStep (.start Machine.sample)
      [.call (.fork 0), .call (.createThread 1), .call (.createThread 1), .joinThread 3 3 0, .call (.threadExit 2 0),
        .joinThread 1 3 0, .call (.createThread 1), .wakeup 3] = some c ∧ ¬ c.WellFormed := by
  refine ⟨?_, ?_, ?_, ?_⟩
  · obtain ⟨c, -, hc, huse, hentry, hunused⟩ := waitedThread
    exact ⟨c, hc, fun h => (h.entries 0 0 1 huse hentry).1 hunused⟩
  · obtain ⟨c, -, hc, huse, hentry, hparent⟩ := reparentedThread
    exact ⟨c, hc, fun h => absurd (hparent.symm.trans (h.entries 1 0 2 huse hentry).2.2) (by decide)⟩
  · obtain ⟨c, -, hc, hlive, hthread, hparent, hpid⟩ := misplacedThread
    refine ⟨c, hc, fun h => ?_⟩
    obtain ⟨p, i, huse, hgroup, hentry⟩ := h.placed 3 hlive hthread
    obtain rfl := Option.some.inj (hparent.symm.trans (h.entries p i 3 huse hentry).2.2)
    exact hpid hgroup
  · obtain ⟨c, -, hc, hlive, hthread, hparent, hnone⟩ := clearedThread
    refine ⟨c, hc, fun h => ?_⟩
    obtain ⟨p, i, huse, -, hentry⟩ := h.placed 4 hlive hthread
    obtain rfl := Option.some.inj (hparent.symm.trans (h.entries p i 4 huse hentry).2.2)
    exact hnone i hentry

/-! ## Rounds -/

/-- A process makes a thread, which ends, and joins it, again and again. With enough memory all threads are made and
are joined with their ids and statuses exactly if there are as many unused slots as rounds, and the number of slots in
use stays the same exactly if no thread is made. -/
theorem thread_rounds_iff {m : Machine} {s : Slot} {pt : PageTable} {rounds : List Round} (hready : Ready m s pt)
    (haddr : ∀ r ∈ rounds, r.statusAddr = 0 ∨ pt.Maps r.statusAddr 4)
    (hfree : rounds.length * threadPages m s ≤ m.kmem.freelist.length) :
    (EachRound (fun _ => Joined pt) s m rounds ↔ rounds.length ≤ m.unused.card) ∧
      (EachRound (fun m _ e => e.machine.inUse.card = m.inUse.card) s m rounds ↔ rounds = [] ∨ m.unused.card = 0) :=
  ⟨eachRound_joined_iff hready haddr hfree, eachRound_kept_iff hready haddr hfree⟩

/-- The page table of the first process. -/
def firstTable : PageTable := (Machine.sample.proc 0).pagetable.get (by decide +kernel)

theorem firstTable_own : firstTable.Own := by
  have haligned : ∀ e ∈ firstTable.leaves.entries, e.2.pa % PGSIZE = 0 := by decide +kernel
  have hdistinct : ∀ e ∈ firstTable.leaves.entries, ∀ e' ∈ firstTable.leaves.entries,
      e.2.pa = e'.2.pa → e.1 = e'.1 := by decide +kernel
  refine ⟨fun i pte hi => ?_, fun i j p q hi hj => ?_⟩
  · exact haligned ⟨i, pte⟩ (AList.mem_lookup_iff.mp hi)
  · exact hdistinct ⟨i, p⟩ (AList.mem_lookup_iff.mp hi) ⟨j, q⟩ (AList.mem_lookup_iff.mp hj)

theorem firstTable_covers : firstTable.Covers PGSIZE := by
  have hkeys : ∀ i ∈ firstTable.leaves.keys, i < USER_PAGES → i = 0 := by decide +kernel
  have hzero : 0 ∈ firstTable.leaves := by decide +kernel
  intro i hi
  constructor
  · intro hmem
    rw [hkeys i (AList.mem_keys.mp hmem) hi]
    decide
  · intro hlt
    obtain rfl : i = 0 := by simp only [PGSIZE] at hlt; omega
    exact hzero

theorem Machine.sample_ready : Ready Machine.sample 0 firstTable where
  runnable := by decide +kernel
  isThread := by decide +kernel
  cwd := by decide +kernel
  pagetable := (Option.some_get _).symm
  covers := by
    rw [show (Machine.sample.proc 0).sz = PGSIZE by decide +kernel]
    exact firstTable_covers
  size := by decide +kernel
  own := firstTable_own
  init := by decide +kernel
  pids := by decide +kernel

/-- The status is wanted at address 16. -/
def roundSeven : Round := ⟨-7, 16, fun _ => 0⟩

theorem roundSeven_maps : firstTable.Maps 16 4 := by
  show ∀ i < 4, (userAddr firstTable (16 + i)).isSome = true
  decide +kernel

theorem thread_rounds_iff_two : Machine.sample.unused.card = 63 ∧
    EachRound (fun _ => Joined firstTable) 0 Machine.sample [roundSeven, roundSeven] := by
  have hcard : Machine.sample.unused.card = 63 := by decide +kernel
  refine ⟨hcard, (thread_rounds_iff Machine.sample_ready ?_ (by decide +kernel)).1.mpr (by rw [hcard]; decide)⟩
  intro r hr
  rw [List.eq_of_mem_replicate (n := 2) hr]
  exact .inr roundSeven_maps

/-- The first process beside processes that sleep, which leave one slot unused. -/
def crowded : Machine :=
  { Machine.sample with proc := fun t => if t.val < 2 then Machine.sample.proc t else { Proc.zero with state := .sleeping } }

/-- The first round takes the last slot and does not give it back, so the second one makes no thread. -/
theorem thread_rounds_fail : crowded.inUse.card = 63 ∧
    (Returns (threadRound 0 crowded roundSeven) fun e => e.joined = some 2 ∧ e.machine.inUse.card = 64 ∧
      Returns (threadRound 0 e.machine roundSeven) fun e' => e'.created = -1) ∧
    ¬ EachRound (fun _ => Joined firstTable) 0 crowded [roundSeven, roundSeven] := by
  have htwo : Returns (threadRound 0 crowded roundSeven) fun e => e.joined = some 2 ∧ e.machine.inUse.card = 64 ∧
      Returns (threadRound 0 e.machine roundSeven) fun e' => e'.created = -1 := by decide +kernel
  refine ⟨by decide +kernel, htwo, ?_⟩
  obtain ⟨e, he, -, -, e', he', hnone⟩ := htwo
  rintro ⟨e₁, he₁, -, e₂, he₂, hjoined, -⟩
  cases he.symm.trans he₁
  cases he'.symm.trans he₂
  exact absurd (hnone ▸ hjoined.made) (show ¬ (0 : Int) ≤ -1 by decide)

/-! ## Growing and shrinking -/

/-- `uvmalloc` leads from one size to the other if there are free pages for it and changes nothing otherwise, whatever
allocation fails; `uvmdealloc` frees what it unmaps; and `growproc` keeps the size of a process without threads and its
memory together. -/
theorem grow_and_shrink_exact :
    (∀ (store : Store) (mem : Memory) (k : Kmem) (pt : PageTable) (oldsz newsz : Nat) (w x : Bool), store.Local →
      Sound k pt → pt.Covers oldsz → 0 < newsz → oldsz ≤ newsz → newsz < TRAPFRAME →
      Returns (uvmallocTo store mem k pt oldsz newsz w x) fun (sz, r, k', pt') =>
        pt.need oldsz newsz ≤ k.freelist.length ∧
            (∃ mem', r = some mem' ∧ sz = newsz ∧ Grown k pt pt' mem' oldsz newsz ⟨w, x, true⟩) ∨
          k.freelist.length < pt.need oldsz newsz ∧ sz = 0 ∧ Restored k pt k' pt') ∧
    (∀ (k : Kmem) (pt : PageTable) (oldsz newsz : Nat), Sole k pt oldsz → newsz < oldsz →
      Returns (uvmdealloc k pt oldsz newsz) fun (sz, k', pt') => sz = newsz ∧ Shrunk k pt k' pt' oldsz newsz) ∧
    (∀ (m : Machine) (s : Slot) (n : Int), Alone m s → -2 ^ 31 ≤ n → n < 2 ^ 31 →
      Returns (growproc m s n) fun (r, m') => Asked m s n r m') := by
  refine ⟨?_, ?_, ?_⟩
  · intro store mem k pt oldsz newsz w x hstore hs hc _ hle hlt
    obtain ⟨hround, -⟩ := pgRoundUp_spec (show oldsz ≤ TRAPFRAME by omega)
    have hi := (Nat.div_mul_cancel (Nat.dvd_of_mod_eq_zero hround)).symm
    refine (uvmallocTo_growing hstore hs hc hle hlt hi).mono fun (sz, r, k', pt') h => h.imp ?_ ?_
    · rintro ⟨henough, mem', ps, hr, hsz, hlen, hg⟩
      exact ⟨henough, mem', hr, hsz, hg.grown hc hle hlt hi hlen⟩
    · rintro ⟨hshort, hsz, hhand, hl⟩
      exact ⟨hshort, hsz, hhand.restored hl⟩
  · intro k pt oldsz newsz hsole hlt
    have hmax : oldsz ≤ TRAPFRAME := hsole.size_le.trans (by decide)
    exact (hsole.shrink hlt hmax).mono fun (sz, k', pt') ⟨hsz, hshrunk, _⟩ => ⟨hsz, hshrunk⟩
  · intro m s n h hlow hhigh
    exact growproc_alone h hlow hhigh

theorem firstTable_sole : Sole Machine.sample.kmem firstTable PGSIZE := by
  have hheld : ∀ e ∈ firstTable.leaves.entries, e.1 < USER_PAGES →
      (e.2.pa % PGSIZE = 0 ∧ Machine.sample.kmem.kend ≤ e.2.pa ∧ e.2.pa < PHYSTOP) ∧
        Machine.sample.kmem.refCounter (pageNum e.2.pa) = 1 ∧ e.2.pa ∉ Machine.sample.kmem.freelist ∧
        e.2.pa ∉ firstTable.pages := by decide +kernel
  have htable : ∀ i pte, i < USER_PAGES → firstTable.leaves.lookup i = some pte →
      Held Machine.sample.kmem pte.pa ∧ pte.pa ∉ firstTable.pages := by
    intro i pte hi hpte
    obtain ⟨hvalid, href, hfree, hapart⟩ := hheld ⟨i, pte⟩ (AList.mem_lookup_iff.mp hpte) hi
    exact ⟨⟨hvalid, href, hfree⟩, hapart⟩
  exact ⟨⟨by decide +kernel, by decide +kernel, by decide +kernel⟩, firstTable_covers,
    fun i pte hi hpte => (htable i pte hi hpte).1, fun i pte hi hpte => (htable i pte hi hpte).2,
    fun i j p q _ _ => firstTable_own.distinct i j p q⟩

theorem Machine.sample_alone : Alone Machine.sample 0 := by
  refine ⟨by decide +kernel, firstTable, (Option.some_get _).symm, ?_⟩
  rw [show (Machine.sample.proc 0).sz = PGSIZE by decide +kernel]
  exact firstTable_sole

/-- The first process grows by 5000 bytes, gives its only page back, and asks for more pages than there are. -/
theorem grow_and_shrink_exact_sample :
    Returns (uvmallocTo (fun _ mem => mem) (fun _ => 1) Machine.sample.kmem firstTable PGSIZE 9096 true false)
      (fun (sz, r, _, pt') => sz = 9096 ∧ ∃ mem', r = some mem' ∧
        Grown Machine.sample.kmem firstTable pt' mem' PGSIZE 9096 ⟨true, false, true⟩) ∧
    Returns (uvmdealloc Machine.sample.kmem firstTable PGSIZE 0)
      (fun (sz, k', pt') => sz = 0 ∧ Shrunk Machine.sample.kmem firstTable k' pt' PGSIZE 0) ∧
    Returns (growproc Machine.sample 0 5000)
      (fun (r, m') => (r = 0 ∧ (m'.proc 0).sz = 9096) ∧ Asked Machine.sample 0 5000 r m') ∧
    Returns (growproc Machine.sample 0 200000)
      fun (r, m') => (r = -1 ∧ (m'.proc 0).sz = PGSIZE) ∧ Asked Machine.sample 0 200000 r m' := by
  obtain ⟨hgrow, hshrink, hproc⟩ := grow_and_shrink_exact
  have hneed : firstTable.need PGSIZE 9096 ≤ Machine.sample.kmem.freelist.length := by decide +kernel
  have hdone : Returns (growproc Machine.sample 0 5000) fun (r, m') => r = 0 ∧ (m'.proc 0).sz = 9096 := by decide +kernel
  have hfailed : Returns (growproc Machine.sample 0 200000) fun (r, m') => r = -1 ∧ (m'.proc 0).sz = PGSIZE := by
    decide +kernel
  refine ⟨?_, hshrink _ _ _ _ firstTable_sole (by decide), hdone.and ?_, hfailed.and ?_⟩
  · refine (hgrow _ _ _ _ _ _ _ _ (fun _ _ _ _ => rfl) firstTable_sole.toSound firstTable_covers (by decide) (by decide)
      (by decide)).mono fun (sz, r, k', pt') h => ?_
    rcases h with ⟨-, mem', hr, hsz, hg⟩ | ⟨hshort, -⟩
    · exact ⟨hsz, mem', hr, hg⟩
    · exact absurd hneed (Nat.not_le.mpr hshort)
  · exact (hproc _ _ _ Machine.sample_alone (by decide) (by decide)).ensures
  · exact (hproc _ _ _ Machine.sample_alone (by decide) (by decide)).ensures

/-! ## Growing that fails -/

/-- A failed `uvmthreaded_alloc` takes nothing back from the members that are done. It leaves the group as it was if it
fails before the first page is mapped for the first member, or not at all. -/
theorem uvmthreaded_alloc_atomic_iff {m : Machine} {thread leader : Slot} {oldsz : Nat} (newsz : Nat)
    (h : ThreadGroup m thread leader oldsz) :
    Ensures (uvmthreadedAlloc m thread oldsz newsz) (fun (r, m') => r = 0 → GrowthUndone m m' leader) ↔
      m.need leader (pgRoundUp oldsz / PGSIZE) (growth oldsz newsz) ≤ m.kmem.freelist.length ∨
        m.kmem.freelist.length ≤ m.firstMissing leader (pgRoundUp oldsz / PGSIZE) := by
  unfold uvmthreadedAlloc growth
  split
  · rw [Machine.need_zero]
    exact iff_of_true (.ok fun he => by omega) (.inl (Nat.zero_le _))
  · have hi : pgRoundUp oldsz = pgRoundUp oldsz / PGSIZE * PGSIZE := by
      rw [pgRoundUp, Nat.mul_div_cancel _ (by decide)]
    have hloop := h.loop_undone_iff hi newsz ⟨true, false, true⟩ (pagesBelow (pgRoundUp oldsz) newsz)
    rw [← hi] at hloop
    rw [← hloop, h.parent]
    constructor
    · rintro hens ⟨b, m'⟩ hrun hb
      refine hens (0, m') ?_ rfl
      dsimp only
      rw [hrun, hb]
      rfl
    · intro hens
      dsimp only
      cases hrun : threadedLoop m thread (some leader) (pgRoundUp oldsz) (pgRoundUp oldsz) newsz ⟨true, false, true⟩
        (pagesBelow (pgRoundUp oldsz) newsz) with
      | error e => exact .error
      | ok r =>
          obtain ⟨b, m'⟩ := r
          refine .ok fun hzero => ?_
          cases b with
          | false => exact hens _ hrun rfl
          | true =>
              -- the new size is 0, and there was no page to map
              obtain rfl : newsz = 0 := hzero
              rw [show pagesBelow (pgRoundUp oldsz) 0 = 0 by rw [pagesBelow, Nat.zero_sub]; rfl] at hrun
              cases hrun
              exact h.undone_refl rfl rfl

/-- The group of the first process, by evaluation. -/
def GroupOfFirst (m : Machine) : Prop :=
  (m.proc 1).parent = some 0 ∧ 1 ∈ m.infants 0 ∧ (m.members 0).Nodup ∧
    (∀ s ∈ m.members 0, (m.proc s).pagetable.any (fun pt =>
      USER_PAGES ∈ pt.leaves ∧ USER_PAGES + 1 ∈ pt.leaves ∧ ∀ i ∈ pt.leaves.keys, i < 1 ∨ USER_PAGES ≤ i)) ∧
    m.kmem.freelist.Nodup ∧
    ∀ s, (m.proc s).pagetable.all fun pt => ∀ e ∈ pt.leaves.entries, e.2.pa ∉ m.kmem.freelist

instance (m : Machine) : Decidable (GroupOfFirst m) := inferInstanceAs (Decidable (_ ∧ _))

theorem GroupOfFirst.threadGroup {m : Machine} (h : GroupOfFirst m) : ThreadGroup m 1 0 PGSIZE := by
  obtain ⟨hparent, hlisted, hnodup, htables, hfree, hmapped⟩ := h
  refine ⟨hparent, hlisted, hnodup, fun s hs => ?_, hfree, fun s i pte _ hpte => ?_⟩
  · obtain ⟨pt, hpt, hall⟩ := (Option.any_eq_true _ _).mp (htables s hs)
    obtain ⟨hframe, htramp, hbelow⟩ := of_decide_eq_true hall
    refine ⟨pt, hpt, ⟨hframe, htramp⟩, fun i hi hlt hmem => ?_⟩
    have := hbelow i hmem
    have : pgRoundUp PGSIZE = PGSIZE := rfl
    have : 0 < PGSIZE := by decide
    rcases hbelow i hmem with hzero | htop
    · rw [Nat.lt_one_iff.mp hzero, Nat.zero_mul] at hi
      omega
    · omega
  · cases hpt : (m.proc s).pagetable with
    | none => rw [Proc.leaf, hpt] at hpte; cases hpte
    | some pt =>
        have hall := hmapped s
        rw [hpt] at hall
        rw [Proc.leaf_eq hpt] at hpte
        exact of_decide_eq_true hall ⟨i, pte⟩ (AList.mem_lookup_iff.mp hpte)

def oneThread : Sample procStep Machine.sample [.createThread 0] (fun _ _ => True)
    (fun m => GroupOfFirst m ∧ m.need 0 1 (growth PGSIZE (3 * PGSIZE)) ≤ m.kmem.freelist.length ∧
      Returns (uvmthreadedAlloc m 1 PGSIZE (40 * PGSIZE)) fun (r, m') => r = 0 ∧ (m.proc 0).leaf 1 = none ∧
        ((m'.proc 0).leaf 1).any fun pte => pte.pa ∈ m'.kmem.freelist) := .eval (by decide +kernel)

/-- A child of the first process takes the pages that are left. -/
def noPages : Sample procStep Machine.sample [.createThread 0, .fork 0, .growproc 2 (12 * 4096)] (fun _ _ => True)
    (fun m => GroupOfFirst m ∧ m.kmem.freelist.length ≤ m.firstMissing 0 1 ∧
      Returns (uvmthreadedAlloc m 1 PGSIZE (3 * PGSIZE)) fun (r, _) => r = 0) := .eval (by decide +kernel)

theorem uvmthreaded_alloc_atomic_iff_two :
    (∃ m, run procStep Machine.sample [.createThread 0] = some m ∧
      Ensures (uvmthreadedAlloc m 1 PGSIZE (3 * PGSIZE)) fun (r, m') => r = 0 → GrowthUndone m m' 0) ∧
    ∃ m, run procStep Machine.sample [.createThread 0, .fork 0, .growproc 2 (12 * 4096)] = some m ∧
      Returns (uvmthreadedAlloc m 1 PGSIZE (3 * PGSIZE)) fun (r, m') => r = 0 ∧ GrowthUndone m m' 0 := by
  obtain ⟨m, -, hm, hgroup, hneed, -⟩ := oneThread
  obtain ⟨m₀, -, hm₀, hgroup₀, hnone, hfails⟩ := noPages
  refine ⟨⟨m, hm, (uvmthreaded_alloc_atomic_iff (3 * PGSIZE) hgroup.threadGroup).mpr (.inl hneed)⟩, m₀, hm₀, ?_⟩
  have hundone := (uvmthreaded_alloc_atomic_iff (3 * PGSIZE) hgroup₀.threadGroup).mpr (.inr hnone)
  exact (hfails.and hundone).mono fun (r, m') ⟨hr, hens⟩ => ⟨hr, hens hr⟩

/-- The free pages run out. The first process keeps the pages that it has got, which are free again. -/
theorem uvmthreaded_alloc_keeps_pages : ∃ m, run procStep Machine.sample [.createThread 0] = some m ∧
    (Returns (uvmthreadedAlloc m 1 PGSIZE (40 * PGSIZE)) fun (r, m') => r = 0 ∧ (m.proc 0).leaf 1 = none ∧
      ∃ pte, (m'.proc 0).leaf 1 = some pte ∧ pte.pa ∈ m'.kmem.freelist) ∧
    ¬ Ensures (uvmthreadedAlloc m 1 PGSIZE (40 * PGSIZE)) fun (r, m') => r = 0 → GrowthUndone m m' 0 := by
  obtain ⟨m, -, hm, -, -, ⟨r, m'⟩, hr, hzero, hnone, hkept⟩ := oneThread
  obtain ⟨pte, hpte, hfree⟩ := (Option.any_eq_true _ _).mp hkept
  refine ⟨m, hm, ⟨_, hr, hzero, hnone, pte, hpte, of_decide_eq_true hfree⟩, fun hens => ?_⟩
  exact (hens _ hr hzero).mapped 0 1 pte (by decide) hpte (of_decide_eq_true hfree)

end Xv6Net.Procs
