import Xv6Net.Lib.Run
import Xv6Net.Proc.Proc

/-!
# CPUs, spinlocks and processes (`kernel/spinlock.c`, `kernel/proc.c`, `kernel/trap.c`)

Any number of CPUs run the kernel at the same time. A CPU has a list of operations that are left to do on the stack
it runs on; each is one access to shared memory, or one to the registers of the CPU. A call puts the body of what is
called in front of the list, an interrupt puts the handler there, and `swtch` stores the list in a context and loads
another one. What is protected by a lock is read and written back in one operation; `lk->cpu` changes together with
`lk->locked`. Nobody calls `create_thread`.

The rest of the kernel is a program for these operations: it takes spinlocks, works on what they protect, sleeps and
wakes up. Its labels stand for a place in the code with the values of local variables.
-/

namespace Xv6Net.Sched

open Procs (ProcState NPROC MAX_THREADS)

/-- The locks of the processes, `wait_lock`, `pid_lock`, and all others. -/
inductive Lock (K : Type) where
  | proc (i : Nat)
  | wait
  | pid
  | other (k : K)
deriving DecidableEq

-- A channel is an address: null, that of a process, or another one.
inductive Chan where
  | null
  | proc (i : Nat)
  | other (n : Nat)
deriving DecidableEq

-- Whose stack a CPU runs on.
inductive Flow where
  | scheduler (c : Nat)
  | proc (i : Nat)
deriving DecidableEq

inductive Irq where
  | timer
  | external (n : Nat)
deriving DecidableEq

-- Who calls `holding`.
inductive Asker where
  | acquire
  | release
  | sched

/-- What follows a call of `killed(p)`. -/
inductive KilledUse (L : Type) where
  | exit
  | wait
  | client (yes no : L)

/-- What follows a call of `myproc()`. -/
inductive Use (K L : Type) where
  | sleep (chan : Chan) (lk : Lock K)
  | wakeup (chan : Chan) (i : Nat)
  | yield
  | sched
  | preempt
  | killed (yes no : L)
  | fork
  | wait
  | exit
  | syscall (n : Nat)
  | fault
  | userInterrupt (irq : Irq)
  | usertrapret
  | forkret

inductive Op (K L : Type) where
  -- push_off, pop_off, acquire and release
  | pushGet
  | pushOff (old : Bool)
  | popOff
  | holding (w : Asker) (lk : Lock K)
  | holdingCpu (w : Asker) (lk : Lock K)
  | swap (lk : Lock K)
  | unlock (lk : Lock K)
  -- registers of the CPU
  | setIntr (on : Bool)
  | readProc (u : Use K L)
  -- sched and scheduler
  | schedChecks (i : Nat)
  | swtch (i : Nat)
  | setIntena (intena : Bool)
  | scheduleFrom (i : Nat)
  | scheduleTest (i : Nat)
  | clearProc
  -- fields of a process
  | sleepOn (i : Nat) (chan : Chan)
  | park (i : Nat) (state : ProcState)
  | clearChan (i : Nat)
  | setKilled (i : Nat)
  | readKilled (i : Nat) (w : KilledUse L)
  | setParent (i q : Nat)
  | preemptTest (i : Nat)
  -- wakeup and kill
  | wakeupFrom (chan : Chan) (i : Nat)
  | wakeTest (chan : Chan) (i : Nat)
  | killFrom (pid i : Nat)
  | killTest (pid i : Nat)
  -- fork
  | allocFrom (i p : Nat)
  | allocTest (i p : Nat)
  | takePid (i p : Nat)
  | allocMem (i p pid : Nat)
  | start (i : Nat)
  | forkretInit
  -- exit and wait
  | threadTest (p : Nat)
  | infantsFrom (q j : Nat)
  | reparentFrom (p i : Nat)
  | wakeParent (p : Nat)
  | waitFrom (p i : Nat) (havekids : Bool)
  | waitTest (p i : Nat)
  -- the rest of the kernel, user space, and the loop of `panic`
  | client (pc : L)
  | user
  | panic (msg : String)

/-- The process that runs on a CPU, with its pid. -/
structure Caller where
  proc : Nat
  pid : Nat
deriving DecidableEq

/-- What the rest of the kernel does at a label. -/
inductive Instr (K L V : Type) where
  | acquire (k : K) (next : L)
  | release (k : K) (next : L)
  /-- A step on what `k` protects, by the process that runs on the CPU. -/
  | act (k : K) (f : Option Caller → V → V × L)
  /-- A step on nothing that is shared. -/
  | choose (next : Nat → L)
  | sleep (chan : Nat) (k : K) (next : L)
  | wakeup (chan : Nat) (next : L)
  | kill (pid : Nat) (next : L)
  | killed (yes no : L)
  | fork (next : L)
  | wait (next : L)
  | exit
  | ret
  | panic (msg : String)

structure Program (K L V : Type) where
  instr : L → Instr K L V
  syscall : Nat → L
  external : Nat → L
  clockintr : L
  fsinit : L
  -- `exit` up to `acquire(&wait_lock)`
  exiting : L

structure Spinlock where
  locked : Bool
  cpu : Option Nat
deriving DecidableEq

structure Cpu (K L : Type) where
  noff : Nat
  intena : Bool
  -- whether the CPU takes interrupts
  intr : Bool
  proc : Option Nat
  stack : Flow
  code : List (Op K L)

structure Proc (K L : Type) where
  state : ProcState
  chan : Chan
  killed : Bool
  pid : Nat
  parent : Option Nat
  isThread : Bool
  infants : Nat → Option Nat
  context : List (Op K L)

structure Sys (K L V : Type) where
  cpus : Nat → Cpu K L
  -- the context of each CPU's scheduler
  scheds : Nat → List (Op K L)
  locks : Lock K → Spinlock
  procs : Nat → Proc K L
  nextpid : Nat
  -- `forkret` has not run yet
  first : Bool
  -- what each of the other locks protects
  data : K → V

/-- The first process that `allocproc` finds. -/
def initproc : Nat := 0

section Calls

variable {K L V : Type}

def acquire (lk : Lock K) : List (Op K L) := [.pushGet, .holding .acquire lk, .swap lk]

def release (lk : Lock K) : List (Op K L) := [.holding .release lk, .unlock lk, .popOff]

def sched : List (Op K L) := [.readProc .sched]

def yield : List (Op K L) := [.readProc .yield]

def sleep (chan : Chan) (lk : Lock K) : List (Op K L) := [.readProc (.sleep chan lk)]

def wakeup (chan : Chan) : List (Op K L) := [.wakeupFrom chan 0]

def killed (p : Nat) (w : KilledUse L) : List (Op K L) := acquire (.proc p) ++ [.readKilled p w]

def exit : List (Op K L) := [.readProc .exit]

def usertrapret : List (Op K L) := [.readProc .usertrapret]

def forkret : List (Op K L) := [.readProc .forkret, .forkretInit] ++ usertrapret

def devintr (P : Program K L V) (c : Nat) : Irq → List (Op K L)
  | .timer => if c = 0 then [.client P.clockintr] else []
  | .external n => [.client (P.external n)]

def kerneltrap (P : Program K L V) (c : Nat) (irq : Irq) : List (Op K L) :=
  devintr P c irq ++ (if irq = .timer then [.readProc .preempt] else []) ++ [.setIntr true]

/-- A CPU that has nothing to do but to schedule. -/
def scheduler : List (Op K L) := [.clearProc, .setIntr true, .scheduleFrom 0]

/-- What is left to do when `holding` has returned. -/
def afterHolding (held : Bool) (k : List (Op K L)) : Asker → List (Op K L)
  | .acquire => if held then [.panic "acquire"] else k
  | .release => if held then k else [.panic "release"]
  | .sched => if held then k else [.panic "sched p->lock"]

/-- What is left to do when `killed(p)` has returned. -/
def afterKilled (p : Nat) (killed : Bool) : KilledUse L → List (Op K L)
  | .exit => if killed then exit else []
  | .wait => if killed then release .wait else sleep (.proc p) .wait ++ [.waitFrom p 0 false]
  | .client yes no => [.client (if killed then yes else no)]

/-- What is left to do for a process that `myproc()` has returned. -/
def forProc (P : Program K L V) (c p : Nat) : Use K L → List (Op K L)
  | .sleep chan lk =>
      acquire (.proc p) ++ release lk ++ [.sleepOn p chan] ++ sched ++ [.clearChan p] ++ release (.proc p) ++ acquire lk
  | .wakeup chan i =>
      (if p = i then [] else acquire (.proc i) ++ [.wakeTest chan i] ++ release (.proc i)) ++ [.wakeupFrom chan (i + 1)]
  | .yield => acquire (.proc p) ++ [.park p .runnable] ++ sched ++ release (.proc p)
  | .sched => [.holding .sched (.proc p), .schedChecks p, .swtch p]
  | .preempt => [.preemptTest p]
  | .killed yes no => killed p (.client yes no)
  | .fork => [.allocFrom 0 p]
  | .wait => acquire .wait ++ [.waitFrom p 0 false]
  | .exit =>
      .threadTest p :: if p = initproc then [.panic "init exiting"]
      else
        [.client P.exiting] ++ acquire .wait ++ [.reparentFrom p 0, .wakeParent p] ++ acquire (.proc p) ++
          [.park p .zombie] ++ release .wait ++ sched ++ [.panic "zombie exit"]
  | .syscall n => killed p .exit ++ [.setIntr true, .client (P.syscall n)] ++ killed p .exit ++ usertrapret
  | .fault => acquire (.proc p) ++ [.setKilled p] ++ release (.proc p) ++ killed p .exit ++ usertrapret
  | .userInterrupt irq =>
      devintr P c irq ++ killed p .exit ++ (if irq = .timer then yield else []) ++ usertrapret
  -- `sret` turns interrupts on
  | .usertrapret => [.setIntr false, .setIntr true, .user]
  | .forkret => release (.proc p)

/-- Without a process only `wakeup` and the check of `kerneltrap` go on; all others follow a null pointer. -/
def afterMyproc (P : Program K L V) (c : Nat) (u : Use K L) : Option Nat → List (Op K L)
  | some p => forProc P c p u
  | none =>
      match u with
      | .wakeup chan i => acquire (.proc i) ++ [.wakeTest chan i] ++ release (.proc i) ++ [.wakeupFrom chan (i + 1)]
      | .preempt => []
      | _ => [.panic "kerneltrap"]

end Calls

section Step

variable {K L V : Type} [DecidableEq K]

def Sys.setCpu (s : Sys K L V) (c : Nat) (u : Cpu K L) : Sys K L V := { s with cpus := Function.update s.cpus c u }

/-- The CPU has `code` left to do. -/
def Sys.goto (s : Sys K L V) (c : Nat) (code : List (Op K L)) : Sys K L V :=
  s.setCpu c { s.cpus c with code := code }

def Sys.setLock (s : Sys K L V) (lk : Lock K) (w : Spinlock) : Sys K L V :=
  { s with locks := Function.update s.locks lk w }

def Sys.setProc (s : Sys K L V) (i : Nat) (p : Proc K L) : Sys K L V :=
  { s with procs := Function.update s.procs i p }

def Sys.caller (s : Sys K L V) (c : Nat) : Option Caller := (s.cpus c).proc.map fun p => ⟨p, (s.procs p).pid⟩

def freeproc (p : Proc K L) : Proc K L :=
  { p with state := .unused, chan := .null, killed := false, pid := 0, parent := none }

/-- One operation of the CPU `c`, with `k` left to do behind it; `n` decides what the model leaves open. -/
def exec (P : Program K L V) (s : Sys K L V) (c n : Nat) (k : List (Op K L)) : Op K L → Sys K L V
  | .pushGet => s.goto c (.pushOff (s.cpus c).intr :: k)
  | .pushOff old =>
      s.setCpu c { s.cpus c with
        intr := false
        intena := if (s.cpus c).noff = 0 then old else (s.cpus c).intena
        noff := (s.cpus c).noff + 1
        code := k }
  | .popOff =>
      if (s.cpus c).intr then s.goto c [.panic "pop_off - interruptible"]
      else if (s.cpus c).noff < 1 then s.goto c [.panic "pop_off"]
      else
        s.setCpu c { s.cpus c with
          noff := (s.cpus c).noff - 1
          intr := decide ((s.cpus c).noff - 1 = 0) && (s.cpus c).intena
          code := k }
  | .holding w lk =>
      if (s.locks lk).locked then s.goto c (.holdingCpu w lk :: k) else s.goto c (afterHolding false k w)
  | .holdingCpu w lk => s.goto c (afterHolding (decide ((s.locks lk).cpu = some c)) k w)
  -- the loop of `acquire`: the word is left set, and the CPU comes here again
  | .swap lk => if (s.locks lk).locked then s else (s.setLock lk ⟨true, some c⟩).goto c k
  | .unlock lk => (s.setLock lk ⟨false, none⟩).goto c k
  | .setIntr on => s.setCpu c { s.cpus c with intr := on, code := k }
  | .readProc u => s.goto c (afterMyproc P c u (s.cpus c).proc ++ k)
  | .schedChecks i =>
      if (s.cpus c).noff ≠ 1 then s.goto c [.panic "sched locks"]
      else if (s.procs i).state = .running then s.goto c [.panic "sched running"]
      else if (s.cpus c).intr then s.goto c [.panic "sched interruptible"]
      else s.goto c k
  -- `swtch(&p->context, &mycpu()->context)`
  | .swtch i =>
      (s.setProc i { s.procs i with context := .setIntena (s.cpus c).intena :: k }).setCpu c
        { s.cpus c with stack := .scheduler c, code := s.scheds c }
  | .setIntena intena => s.setCpu c { s.cpus c with intena := intena, code := k }
  | .scheduleFrom i =>
      if i < NPROC then
        s.goto c (acquire (.proc i) ++ [.scheduleTest i] ++ release (.proc i) ++ [.scheduleFrom (i + 1)] ++ k)
      else s.goto c (.setIntr true :: .scheduleFrom 0 :: k)
  -- with `swtch(&c->context, &p->context)`
  | .scheduleTest i =>
      if (s.procs i).state = .runnable then
        { s.setProc i { s.procs i with state := .running } with
          scheds := Function.update s.scheds c (.clearProc :: k) }.setCpu c
          { s.cpus c with proc := some i, stack := .proc i, code := (s.procs i).context }
      else s.goto c k
  | .clearProc => s.setCpu c { s.cpus c with proc := none, code := k }
  | .sleepOn i chan => (s.setProc i { s.procs i with state := .sleeping, chan := chan }).goto c k
  | .park i state => (s.setProc i { s.procs i with state := state }).goto c k
  | .clearChan i => (s.setProc i { s.procs i with chan := .null }).goto c k
  | .setKilled i => (s.setProc i { s.procs i with killed := true }).goto c k
  | .readKilled i w => s.goto c (release (.proc i) ++ afterKilled i (s.procs i).killed w ++ k)
  | .setParent i q => (s.setProc i { s.procs i with parent := some q }).goto c k
  | .preemptTest i => if (s.procs i).state = .running then s.goto c (yield ++ k) else s.goto c k
  | .wakeupFrom chan i => if i < NPROC then s.goto c (.readProc (.wakeup chan i) :: k) else s.goto c k
  | .wakeTest chan i =>
      if (s.procs i).state = .sleeping ∧ (s.procs i).chan = chan then
        (s.setProc i { s.procs i with state := .runnable }).goto c k
      else s.goto c k
  | .killFrom pid i => if i < NPROC then s.goto c (acquire (.proc i) ++ .killTest pid i :: k) else s.goto c k
  | .killTest pid i =>
      if (s.procs i).pid = pid then
        (s.setProc i { s.procs i with
          killed := true
          state := if (s.procs i).state = .sleeping then .runnable else (s.procs i).state }).goto c (release (.proc i) ++ k)
      else s.goto c (release (.proc i) ++ .killFrom pid (i + 1) :: k)
  | .allocFrom i p => if i < NPROC then s.goto c (acquire (.proc i) ++ .allocTest i p :: k) else s.goto c k
  -- the lock is held from here to where the caller of `allocproc` releases it
  | .allocTest i p =>
      if (s.procs i).state = .unused then
        (s.setProc i { s.procs i with state := .used, context := forkret }).goto c (acquire .pid ++ .takePid i p :: k)
      else s.goto c (release (.proc i) ++ .allocFrom (i + 1) p :: k)
  | .takePid i p =>
      ({ s with nextpid := s.nextpid + 1 } : Sys K L V).goto c (release .pid ++ .allocMem i p s.nextpid :: k)
  -- `n = 0`: no memory for the trapframe, the page table or its pages
  | .allocMem i p pid =>
      if n = 0 then (s.setProc i (freeproc (s.procs i))).goto c (release (.proc i) ++ k)
      else
        (s.setProc i { s.procs i with pid := pid }).goto c (release (.proc i) ++ acquire .wait ++ [.setParent i p] ++
          release .wait ++ acquire (.proc i) ++ [.start i] ++ release (.proc i) ++ k)
  | .start i => (s.setProc i { s.procs i with state := .runnable, isThread := false }).goto c k
  | .forkretInit => if s.first then { s with first := false }.goto c (.client P.fsinit :: k) else s.goto c k
  | .threadTest p =>
      if (s.procs p).isThread then s.goto c ((s.procs p).parent.elim [.panic "kerneltrap"] fun q => .infantsFrom q 0 :: k)
      else s.goto c k
  -- a thread ends all threads of its parent, while they may run
  | .infantsFrom q j =>
      if j < MAX_THREADS then
        match (s.procs q).infants j with
        | none => s.goto c (.infantsFrom q (j + 1) :: k)
        | some i =>
            s.goto c (.client P.exiting :: (acquire .wait ++ acquire (.proc i) ++ [.park i .zombie] ++ release (.proc i) ++
              release .wait ++ .infantsFrom q (j + 1) :: k))
      else s.goto c k
  | .reparentFrom p i =>
      if i < NPROC then
        if (s.procs i).parent = some p then
          s.goto c (.setParent i initproc :: (wakeup (.proc initproc) ++ .reparentFrom p (i + 1) :: k))
        else s.goto c (.reparentFrom p (i + 1) :: k)
      else s.goto c k
  | .wakeParent p => s.goto c (wakeup ((s.procs p).parent.elim .null .proc) ++ k)
  | .waitFrom p i havekids =>
      if i < NPROC then
        if (s.procs i).parent = some p then s.goto c (acquire (.proc i) ++ .waitTest p i :: k)
        else s.goto c (.waitFrom p (i + 1) havekids :: k)
      else if havekids then s.goto c (killed p .wait ++ k)
      else s.goto c (release .wait ++ k)
  | .waitTest p i =>
      if (s.procs i).state = .zombie then
        -- `n = 0`: `copyout` of the status has failed
        if n = 0 then s.goto c (release (.proc i) ++ release .wait ++ k)
        else (s.setProc i (freeproc (s.procs i))).goto c (release (.proc i) ++ release .wait ++ k)
      else s.goto c (release (.proc i) ++ .waitFrom p (i + 1) true :: k)
  | .client pc =>
      match P.instr pc with
      | .acquire l next => s.goto c (acquire (.other l) ++ .client next :: k)
      | .release l next => s.goto c (release (.other l) ++ .client next :: k)
      | .act l f =>
          { s with data := Function.update s.data l (f (s.caller c) (s.data l)).1 }.goto c
            (.client (f (s.caller c) (s.data l)).2 :: k)
      | .choose next => s.goto c (.client (next n) :: k)
      | .sleep chan l next => s.goto c (sleep (.other chan) (.other l) ++ .client next :: k)
      | .wakeup chan next => s.goto c (wakeup (.other chan) ++ .client next :: k)
      | .kill pid next => s.goto c (.killFrom pid 0 :: .client next :: k)
      | .killed yes no => s.goto c (.readProc (.killed yes no) :: k)
      | .fork next => s.goto c (.readProc .fork :: .client next :: k)
      | .wait next => s.goto c (.readProc .wait :: .client next :: k)
      | .exit => s.goto c (exit ++ k)
      | .ret => s.goto c k
      | .panic _ => s
  -- user code traps with a system call, or with anything that `usertrap` does not expect
  | .user =>
      s.setCpu c { s.cpus c with
        intr := false
        code := .readProc (if n = 0 then .fault else .syscall (n - 1)) :: k }
  | .panic _ => s

inductive Act where
  | run (c n : Nat)
  | interrupt (c : Nat) (irq : Irq)
deriving DecidableEq

/-- A CPU goes on, or takes an interrupt if they are on, in the loop of `panic` as well. -/
def step (P : Program K L V) (s : Sys K L V) : Act → Option (Sys K L V)
  | .run c n =>
      match (s.cpus c).code with
      | [] => none
      | op :: k => some (exec P s c n k op)
  | .interrupt c irq =>
      if (s.cpus c).intr then
        match (s.cpus c).code with
        | [] => none
        | .user :: k => some (s.setCpu c { s.cpus c with intr := false, code := .readProc (.userInterrupt irq) :: k })
        | code => some (s.setCpu c { s.cpus c with intr := false, code := kerneltrap P c irq ++ code })
      else none

/-- After initialisation: all CPUs are about to schedule, and there is the first process (`userinit`). -/
def boot (data : K → V) : Sys K L V where
  cpus c := ⟨0, false, false, none, .scheduler c, scheduler⟩
  scheds _ := []
  locks _ := ⟨false, none⟩
  procs i :=
    if i = initproc then ⟨.runnable, .null, false, 1, none, false, fun _ => none, forkret⟩
    else ⟨.unused, .null, false, 0, none, false, fun _ => none, []⟩
  nextpid := 2
  first := true
  data := data

end Step

end Xv6Net.Sched
