import Xv6Net.Sched.Lemmas.Holders
import Xv6Net.Sched.Lemmas.Kernel
import Xv6Net.Sched.Lemmas.Wakeup

/-!
# Properties of locks, sleeping and waking up

They hold in every state of every run: for any number of CPUs, any order of their steps, interrupts at any time, and any
program of the rest of the kernel that keeps to the rules. The calls that sleep do.
-/

namespace Xv6Net.Sched

open Lib
open Procs (ProcState NPROC)

section Runs

variable {K L V : Type} [DecidableEq K] {D : Discipline K L} {M : Monitor K L V} {P : Program K L V} {data : K → V} {acts : List Act}
  {s : Sys K L V}

theorem safe_run (S : D.Sound P) (hr : run (step P) (boot data) acts = some s) : Safe D s :=
  run_keeps' (fun _ _ _ h hs => h.step S hs) (.boot data) hr

theorem sysOk_run (SD : D.Sound P) (S : M.Sound D P) (hdata : ∀ x, M.inv x (data x))
    (hr : run (step P) (boot data) acts = some s) : SysOk D M s :=
  run_keeps' (fun _ _ _ h hs => h.step SD S hs) (.boot hdata) hr

/-- Nothing is open under a lock that nobody has. -/
theorem SysOk.rests (h : SysOk D M s) (lk : Lock K) (hlk : lk.Monitored) (hfree : (s.locks lk).locked = false) :
    M.LockInv s lk ∧ ∀ ch, M.chanLock ch = lk → M.Quiet s ch := by
  obtain ⟨maker, hI⟩ := h.safe
  obtain ⟨hinv, hquiet⟩ := (h.watched.kept lk hlk).rests (by simpa [hI.lock] using hfree)
  exact ⟨hinv, fun ch hch => (hquiet ch hch).resolve_left (Set.notMem_empty ch)⟩

end Runs

/-! ## A kernel for concrete runs -/

/-- The calls of the first process, by number. -/
def sampleScript : Script where
  call n :=
    match n with
    | 1 => .fork
    | 2 => .wait
    | 3 => .uartputc 65
    | 4 => .recvfrom 0
    | 5 => .logWrite 0
    | _ => .ret
  port _ := 0
  packet _ := 0

def Shared.zero : Shared where
  sleeplock := ⟨false, 0⟩
  log := ⟨0, Fs.nlog, 0, false, []⟩
  pipe := ⟨fun _ => 0, 0, 0, true, true⟩
  put := []
  taken := []
  cons := ⟨fun _ => 0, 0, 0, 0, [], [], []⟩
  uart := ⟨fun _ => 0, 0, 0, [], []⟩
  rx := ⟨none, none, fun _ => none⟩
  binds _ := none
  ticks := 0

theorem Shared.initial_zero : Shared.zero.Initial := by constructor <;> simp [Shared.zero]

/-- The first process is in `fsinit`. -/
def inFsinit : List Act := List.replicate 14 (.run 0 0)

def sampleRun (acts : List Act) (P : Sys LockId Label Shared → Prop) : Type :=
  Sample (step (kernel sampleScript)) (boot fun _ => Shared.zero) acts (fun _ _ => True) P

/-! ## Spinlocks -/

variable {K L V : Type} [DecidableEq K] {D : Discipline K L} {P : Program K L V} {data : K → V} {acts : List Act} {s : Sys K L V}

/-- A spinlock is held by one CPU at a time, which takes no interrupts, wherever the program needs the lock. -/
theorem spinlocks_held (S : D.Sound P) (hr : run (step P) (boot data) acts = some s) : LocksHeld D P s := by
  obtain ⟨maker, h⟩ := safe_run S hr
  exact h.locksHeld

/-- A process puts a character into the buffer of the UART. -/
def inUartputc : sampleRun (inFsinit ++ [.run 0 3] ++ List.replicate 6 (.run 0 0))
    fun s => (s.locks (.other .uart)).cpu = some 0 := .eval (by decide +kernel)

theorem spinlocks_held_uart : LocksHeld kernelDiscipline (kernel sampleScript) inUartputc.last ∧ (inUartputc.last.locks (.other .uart)).cpu = some 0 :=
  ⟨spinlocks_held (kernel_disciplined sampleScript) inUartputc.runs, inUartputc.holds⟩

/-- The kernel stack of a process is used by one CPU at a time. -/
theorem stacks_owned (S : D.Sound P) (hr : run (step P) (boot data) acts = some s) : StacksOwned s := by
  obtain ⟨maker, h⟩ := safe_run S hr
  exact h.stacksOwned

/-- The first process on CPU 0, while another CPU looks for one to run. -/
def inFsinitBusy : sampleRun (inFsinit ++ List.replicate 30 (.run 1 0)) fun s => (s.cpus 0).stack = .proc 0 :=
  .eval (by decide +kernel)

theorem stacks_owned_busy : StacksOwned inFsinitBusy.last ∧ (inFsinitBusy.last.cpus 0).stack = .proc 0 :=
  ⟨stacks_owned (kernel_disciplined sampleScript) inFsinitBusy.runs, inFsinitBusy.holds⟩

/-- A process that sleeps in `wait` has no child that has exited. -/
theorem wait_not_lost {lockOf : Nat → K} (S : D.Sound P) (hP : P.SleepsUnder lockOf)
    (hr : run (step P) (boot data) acts = some s) {j p : Nat} (hj : j < NPROC) (hstate : (s.procs j).state = .sleeping)
    (hchan : (s.procs j).chan = .proc p) (hfree : (s.locks .wait).locked = false) :
    ∀ i < NPROC, ¬ ZombieChild s p i := by
  intro i hi hz
  obtain ⟨-, hquiet⟩ := (sysOk_run S (hP.sound D) (fun _ => trivial) hr).rests .wait trivial hfree
  exact hquiet (.proc p) rfl j ⟨hj, .inl ⟨hstate, hchan⟩⟩ ⟨i, hi, hz⟩

/-- The first process forks and waits. -/
def inWait : sampleRun (inFsinit ++ [.run 0 1] ++ List.replicate 50 (.run 0 1) ++ [.run 0 2] ++ List.replicate 99 (.run 0 0))
    fun s => (s.procs 0).state = .sleeping ∧ (s.procs 0).chan = .proc 0 ∧ (s.locks .wait).locked = false ∧
      (s.procs 1).parent = some 0 := .eval (by decide +kernel)

theorem wait_not_lost_fork : (∀ i < NPROC, ¬ ZombieChild inWait.last 0 i) ∧ (inWait.last.procs 1).parent = some 0 :=
  ⟨wait_not_lost (kernel_disciplined sampleScript) (kernel_sleepsUnder sampleScript) inWait.runs (by decide) inWait.holds.1 inWait.holds.2.1
    inWait.holds.2.2.1, inWait.holds.2.2.2⟩

/-! ## The calls that sleep -/

section Kernel

variable {S : Script} {data : LockId → Shared} {s : Sys LockId Label Shared}

/-- No CPU ever runs out of code, or panics for another reason than those that are left to whoever calls the kernel. -/
theorem panics_known (hdata : ∀ x, (data x).Initial) (hr : run (step (kernel S)) (boot data) acts = some s) (c : Nat) :
    (s.cpus c).code ≠ [] ∧ ∀ msg, s.panicked (kernel S) c = some msg → msg ∈ kernelPanics := by
  have h := sysOk_run (kernel_disciplined S) (kernel_monitored S) (fun x => (hdata x).inv x) hr
  obtain ⟨maker, hI⟩ := h.safe
  refine ⟨hI.code_ne_nil c, fun msg hp => ?_⟩
  rcases hI.panicked hp with rfl | ⟨pc, k, hcode, hpc⟩
  · exact .head _
  · cases pc with
    | panic t e =>
        cases hpc
        have hheld := ((hI.locksHeld (P := kernel S)).held c _ k t.lock hcode (.head _)).1
        have hst := (h.watched.kept (.other t.lock) trivial).stands c (by rw [hheld])
        rw [hcode] at hst
        exact (hst t.lock rfl).1.2
    | _ => cases hpc

/-- A process calls `log_write` outside of an operation. -/
def inLogWrite : sampleRun (inFsinit ++ [.run 0 5] ++ List.replicate 6 (.run 0 0))
    fun s => s.panicked (kernel sampleScript) 0 = some "log_write outside of trans" := .eval (by decide +kernel)

theorem panics_known_log : inLogWrite.last.panicked (kernel sampleScript) 0 = some "log_write outside of trans" ∧
    "log_write outside of trans" ∈ kernelPanics :=
  ⟨inLogWrite.holds, (panics_known (fun _ => Shared.initial_zero) inLogWrite.runs 0).2 _ inLogWrite.holds⟩

end Kernel

end Xv6Net.Sched
