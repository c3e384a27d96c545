import Mathlib.Data.Set.Insert
import Xv6Net.Sched.Discipline

/-!
# Code that is left to do, as a typing judgement

What a CPU has left to do is typed by what it holds: the locks, the depth of `push_off`, whether interrupts are on
outside of all `push_off`s, and how far it has come with a context switch. There is one rule for each operation, about
the whole of what the operation leads to. The calls of the kernel are typed with what they need and leave behind.
-/

namespace Xv6Net.Sched

open Procs (ProcState NPROC)

variable {K L V : Type} {b : Bool} {irq : Irq} {pc : L} {c : Nat}

/-- A CPU that leaves a process has set the state of the process; then its scheduler goes on after the process. -/
inductive Mode where
  | normal
  | parking (state : ProcState)
  | back (i : Nat)

@[ext]
structure Loc (K : Type) where
  held : Set (Lock K)
  noff : Nat
  -- whether interrupts are on when `noff` is 0
  base : Bool
  mode : Mode

namespace Loc

def push (l : Loc K) : Loc K := { l with noff := l.noff + 1 }

def pop (l : Loc K) : Loc K := { l with noff := l.noff - 1 }

def add (l : Loc K) (lk : Lock K) : Loc K := { l with held := insert lk l.held }

def remove (l : Loc K) (lk : Lock K) : Loc K := { l with held := l.held \ {lk} }

def setMode (l : Loc K) (m : Mode) : Loc K := { l with mode := m }

def setBase (l : Loc K) (b : Bool) : Loc K := { l with base := b }

def clear (l : Loc K) : Loc K := { l with held := ∅, noff := 0 }

/-- After `acquire`. -/
def take (l : Loc K) (lk : Lock K) : Loc K := l.push.add lk

/-- After `release`. -/
def drop (l : Loc K) (lk : Lock K) : Loc K := (l.remove lk).pop

structure Is (l : Loc K) (H : Set (Lock K)) (n : Nat) (m : Mode) : Prop where
  held : l.held = H
  noff : l.noff = n
  mode : l.mode = m

def Idle (l : Loc K) : Prop := l.Is ∅ 0 .normal

def Only (l : Loc K) (lk : Lock K) : Prop := l.Is {lk} 1 .normal

/-- A process that has set its state and is on its way into `swtch`. -/
def Parks (l : Loc K) (i : Nat) (st : ProcState) : Prop := l.Is {.proc i} 1 (.parking st)

/-- What a process has when `swtch` returns to it: its own lock, from the scheduler. -/
def parked (p : Nat) (base : Bool) : Loc K := ⟨{.proc p}, 1, base, .normal⟩

/-- What the scheduler has when `swtch` returns to it. -/
def backFrom (p : Nat) (base : Bool) : Loc K := ⟨{.proc p}, 1, base, .back p⟩

/-- `acquire` is possible. -/
def Takes (D : Discipline K L) (l : Loc K) (lk : Lock K) : Prop := ∀ lk' ∈ l.held, D.level lk < D.level lk'

/-- `wakeup` and `kill` are called without the lock of any process. -/
structure NoProc (l : Loc K) : Prop where
  free : ∀ i, .proc i ∉ l.held
  pid : .pid ∉ l.held
  mode : l.mode = .normal

/-- `pop_off` is possible: interrupts come on with no lock held. -/
def Pops (l : Loc K) : Prop := 0 < l.noff ∧ (l.noff = 1 → l.held = ∅)

/-- `release` is possible. -/
structure Drops (l : Loc K) (lk : Lock K) : Prop where
  mem : lk ∈ l.held
  pops : (l.remove lk).Pops
  mode : l.mode = .normal ∨ ∀ i, lk ≠ .proc i

structure AtLabel (D : Discipline K L) (f : Flow) (l : Loc K) (pc : L) : Prop where
  held : l.held = {lk | ∃ k ∈ D.held pc, lk = .other k}
  noff : l.noff = (D.held pc).length
  mode : l.mode = .normal
  base : D.irq pc = true → l.base = false
  proc : D.irq pc = false → ∃ p, f = .proc p

end Loc

/-- The code has a process in the making: `fork` has found it and has yet to start it. -/
def Makes (i : Nat) : List (Op K L) → Prop
  | [] => False
  | .takePid j _ :: k | .allocMem j _ _ :: k | .start j :: k => j = i ∨ Makes i k
  | _ :: k => Makes i k

section Rules

variable (D : Discipline K L) (f : Flow) (k : List (Op K L)) (T : Loc K → Prop) (l : Loc K)

/-- The rule for an operation; `T` types what follows it. -/
def OpTyped : Op K L → Prop
  | .pushGet => T l.push
  | .pushOff old => (l.noff = 0 → old = l.base) ∧ T l.push
  | .popOff => l.Pops ∧ T l.pop
  | .holding w lk | .holdingCpu w lk => 0 < l.noff ∧ (lk ∈ l.held ↔ w ≠ .acquire) ∧ T l
  | .swap lk => 0 < l.noff ∧ l.Takes D lk ∧ T (l.add lk)
  | .unlock lk => 0 < l.noff ∧ lk ∈ l.held ∧ (l.mode = .normal ∨ ∀ i, lk ≠ .proc i) ∧ T (l.remove lk)
  | .setIntr on => l.Idle ∧ T (l.setBase on)
  | .readProc (.sleep _ lk) => (∃ p, f = .proc p) ∧ 1 < D.level lk ∧ l.Only lk ∧ T l
  | .readProc (.wakeup _ i) => i < NPROC ∧ l.NoProc ∧ T l
  | .readProc .sched => ∃ p st, f = .proc p ∧ l.Parks p st ∧ (st ≠ .zombie → T (l.setMode .normal))
  | .readProc .preempt => l.Idle ∧ T l
  | .readProc (.killed yes no) => l.AtLabel D f yes ∧ l.AtLabel D f no ∧ (∃ p, f = .proc p) ∧ T l.clear
  | .readProc .yield | .readProc .fork | .readProc .wait => (∃ p, f = .proc p) ∧ l.Idle ∧ T l
  | .readProc .exit | .readProc (.syscall _) | .readProc .fault | .readProc .usertrapret => (∃ p, f = .proc p) ∧ l.Idle
  | .readProc (.userInterrupt _) => (∃ p, f = .proc p) ∧ l.Idle ∧ l.base = false
  | .readProc .forkret => ∃ p, f = .proc p ∧ l.Only (.proc p) ∧ T l.clear
  | .schedChecks i => f = .proc i ∧ ∃ st, l.Parks i st ∧ T l
  | .swtch i => f = .proc i ∧ ∃ st, l.Parks i st ∧ (st ≠ .zombie → T (l.setMode .normal))
  | .setIntena b => 0 < l.noff ∧ T (l.setBase b)
  | .scheduleFrom _ => (∃ c, f = .scheduler c) ∧ l.Idle
  | .scheduleTest i => (∃ c, f = .scheduler c) ∧ l.Only (.proc i) ∧ i < NPROC ∧ ∀ b, T (l.setBase b)
  | .clearProc => (∃ c, f = .scheduler c) ∧ T (l.setMode .normal)
  | .sleepOn i _ => f = .proc i ∧ l.Only (.proc i) ∧ T (l.setMode (.parking .sleeping))
  | .park i st =>
      f = .proc i ∧ .proc i ∈ l.held ∧ l.mode = .normal ∧ (st = .runnable ∨ st = .zombie ∧ .wait ∈ l.held) ∧
        T (l.setMode (.parking st))
  | .clearChan i => f = .proc i ∧ l.Only (.proc i) ∧ T l
  | .setKilled i => .proc i ∈ l.held ∧ T l
  | .setParent _ _ => .wait ∈ l.held ∧ T l
  | .readKilled i .exit => l.Only (.proc i) ∧ f = .proc i ∧ T l.clear
  | .readKilled i .wait => l.Drops (.proc i) ∧ (l.drop (.proc i)).Only .wait ∧ f = .proc i ∧ T l.clear
  | .readKilled i (.client yes no) =>
      l.Drops (.proc i) ∧ (l.drop (.proc i)).AtLabel D f yes ∧ (l.drop (.proc i)).AtLabel D f no ∧ T l.clear
  | .preemptTest i => f = .proc i ∧ l.Idle ∧ T l
  | .wakeupFrom _ _ | .killFrom _ _ => l.NoProc ∧ T l
  | .wakeTest _ i => i < NPROC ∧ .proc i ∈ l.held ∧ f ≠ .proc i ∧ l.mode = .normal ∧ T l
  | .killTest _ i => l.Drops (.proc i) ∧ (l.drop (.proc i)).NoProc ∧ T (l.drop (.proc i))
  | .allocFrom _ p => f = .proc p ∧ l.Idle ∧ T l
  | .allocTest i p => f = .proc p ∧ l.Only (.proc i) ∧ T l.clear
  | .takePid i p => f = .proc p ∧ (l.drop .pid).Only (.proc i) ∧ l.Drops .pid ∧ ¬ Makes i k ∧ T l.clear
  | .allocMem i p _ => f = .proc p ∧ l.Only (.proc i) ∧ ¬ Makes i k ∧ T l.clear
  | .start i => l.Only (.proc i) ∧ ¬ Makes i k ∧ T l
  | .forkretInit => (∃ p, f = .proc p) ∧ l.Idle ∧ T l
  | .threadTest p => f = .proc p ∧ T l
  | .infantsFrom _ _ => False
  | .reparentFrom p _ | .wakeParent p => f = .proc p ∧ l.Only .wait ∧ T l
  | .waitFrom p _ _ => f = .proc p ∧ l.Only .wait ∧ T l.clear
  | .waitTest p i => f = .proc p ∧ l.Drops (.proc i) ∧ (l.drop (.proc i)).Only .wait ∧ T l.clear
  | .client pc => l.AtLabel D f pc ∧ T l.clear
  | .user => (∃ p, f = .proc p) ∧ l.Idle ∧ l.base = true
  | .panic msg => msg = "init exiting" ∧ l.Idle

end Rules

def Typed (D : Discipline K L) (f : Flow) : List (Op K L) → Loc K → Prop
  | [], _ => False
  | op :: k, l => OpTyped D f k (Typed D f k) l op

variable {D : Discipline K L} {P : Program K L V} {f : Flow} {k : List (Op K L)} {l l' : Loc K} {lk lk' : Lock K} {p i : Nat}

/-! ## What is held -/

theorem ne_proc_of_level (h : 1 < D.level lk) (i : Nat) : lk ≠ .proc i := by
  rintro rfl
  exact Nat.lt_irrefl 1 h

namespace Loc

theorem Is.eq {H : Set (Lock K)} {n : Nat} {m : Mode} (h : l.Is H n m) (h' : l'.Is H n m) (hb : l.base = l'.base) : l = l' :=
  Loc.ext (h.held.trans h'.held.symm) (h.noff.trans h'.noff.symm) hb (h.mode.trans h'.mode.symm)

theorem Takes.notMem (h : l.Takes D lk) : lk ∉ l.held := fun hm => Nat.lt_irrefl _ (h lk hm)

theorem drop_take (h : lk ∉ l.held) : (l.take lk).drop lk = l := by
  simp [take, drop, push, pop, add, remove, Set.insert_sdiff_self_of_notMem h]

theorem drops_take (h : lk ∉ l.held) (hl : l.noff = 0 → l.held = ∅) (hm : l.mode = .normal ∨ ∀ i, lk ≠ .proc i) :
    (l.take lk).Drops lk := by
  refine ⟨Set.mem_insert .., ⟨Nat.succ_pos _, fun h1 => ?_⟩, hm⟩
  simpa [take, push, add, remove, Set.insert_sdiff_self_of_notMem h] using hl (Nat.succ.inj h1)

/-! With no lock. -/

section

variable (h : l.Idle)
include h

theorem Idle.notMem (lk : Lock K) : lk ∉ l.held := by simp [h.held]

theorem Idle.takes (lk : Lock K) : l.Takes D lk := fun lk' hm => absurd hm (h.notMem lk')

theorem Idle.noProc : l.NoProc := ⟨fun _ => h.notMem _, h.notMem _, h.mode⟩

theorem Idle.wf : l.noff = 0 → l.held = ∅ := fun _ => h.held

theorem Idle.clear : l.clear = l := Is.eq ⟨rfl, rfl, h.mode⟩ h rfl

theorem Idle.setBase (b : Bool) : (l.setBase b).Idle := ⟨h.held, h.noff, h.mode⟩

theorem Idle.take (lk : Lock K) : (l.take lk).Only lk :=
  ⟨by simp [Loc.take, push, add, h.held], by simp [Loc.take, push, add, h.noff], h.mode⟩

end

/-! With one lock. -/

section

variable (h : l.Only lk)
include h

theorem Only.mem : lk ∈ l.held := by simp [h.held]

theorem Only.drop : (l.drop lk).Idle :=
  ⟨by simp [Loc.drop, remove, pop, h.held], by simp [Loc.drop, remove, pop, h.noff], h.mode⟩

theorem Only.drop_eq : l.drop lk = l.clear := by
  rw [← Idle.clear h.drop]; rfl

theorem Only.drops : l.Drops lk :=
  ⟨h.mem, ⟨by simp [remove, h.noff], fun _ => by simp [remove, h.held]⟩, .inl h.mode⟩

theorem Only.setBase (b : Bool) : (l.setBase b).Only lk := ⟨h.held, h.noff, h.mode⟩

theorem Only.setMode_normal (m : Mode) : (l.setMode m).setMode .normal = l :=
  Is.eq ⟨h.held, h.noff, rfl⟩ h rfl

theorem Only.takes (hlt : D.level lk' < D.level lk) : l.Takes D lk' := by
  intro lk'' hm
  rw [h.held] at hm
  rwa [Set.mem_singleton_iff.mp hm]

end

theorem Only.noProc_wait (h : l.Only .wait) : l.NoProc := by
  refine ⟨fun i => ?_, ?_, h.mode⟩ <;> simp [h.held]

/-- One lock is taken and the other one released. -/
theorem Only.exchange (h : l.Only lk) (hne : lk ≠ lk') : ((l.take lk').drop lk).Only lk' := by
  refine ⟨?_, by simp [Loc.drop, Loc.take, remove, pop, push, add, h.noff], h.mode⟩
  simp [Loc.drop, Loc.take, remove, pop, push, add, h.held, hne.symm]

theorem Only.take_drops (h : l.Only lk) : (l.take lk').Drops lk :=
  ⟨by simp [Loc.take, push, add, h.held], ⟨by simp [Loc.take, push, add, remove], by simp [Loc.take, push, add, remove, h.noff]⟩,
    .inl h.mode⟩

theorem NoProc.takes (h : l.NoProc) (i : Nat) : l.Takes D (.proc i) := by
  intro lk hm
  cases lk with
  | proc j => exact absurd hm (h.free j)
  | pid => exact absurd hm h.pid
  | wait => exact Nat.one_lt_two
  | other x => exact Nat.lt_add_left _ Nat.one_lt_two

theorem AtLabel.noProc (h : l.AtLabel D f pc) : l.NoProc := by
  refine ⟨fun i => ?_, ?_, h.mode⟩ <;> simp [h.held]

theorem AtLabel.idle (h : l.AtLabel D f pc) (hh : D.held pc = []) : l.Idle :=
  ⟨by simp [h.held, hh], by simp [h.noff, hh], h.mode⟩

theorem AtLabel.only {x : K} (h : l.AtLabel D f pc) (hh : D.held pc = [x]) : l.Only (.other x) :=
  ⟨by simp [h.held, hh], by simp [h.noff, hh], h.mode⟩

theorem AtLabel.mem {x : K} (h : l.AtLabel D f pc) (hx : x ∈ D.held pc) : .other x ∈ l.held := by simp [h.held, hx]

end Loc

/-! ## The calls of the kernel -/

theorem typed_acquire : Typed D f (acquire lk ++ k) l ↔ l.Takes D lk ∧ Typed D f k (l.take lk) := by
  constructor
  · rintro ⟨-, -, -, ht, hk⟩
    exact ⟨ht, hk⟩
  · rintro ⟨ht, hk⟩
    exact ⟨Nat.succ_pos _, ⟨fun hm => absurd hm ht.notMem, fun hne => absurd rfl hne⟩, Nat.succ_pos _, ht, hk⟩

theorem typed_release (hl : l.Drops lk) : Typed D f (release lk ++ k) l ↔ Typed D f k (l.drop lk) := by
  have hpos : 0 < l.noff := hl.pops.1
  constructor
  · rintro ⟨-, -, -, -, -, -, hk⟩
    exact hk
  · exact fun hk => ⟨hpos, ⟨fun _ => Asker.noConfusion, fun _ => hl.mem⟩, hpos, hl.mem, hl.mode, hl.pops, hk⟩

theorem Discipline.Entry.atLabel (h : D.Entry b pc) (hl : l.Idle) (hb : b = true → l.base = false)
    (hf : b = false → ∃ p, f = .proc p) : l.AtLabel D f pc :=
  ⟨by simp [h.1, hl.held], by simp [h.1, hl.noff], hl.mode, fun hi => hb (h.2 ▸ hi), fun hi => hf (h.2 ▸ hi)⟩

/-- Code that is entered with nothing held, and returns that way. -/
theorem typed_entry (h : D.Entry b pc) (hl : l.Idle) (hb : b = true → l.base = false)
    (hf : b = false → ∃ p, f = .proc p) (hk : Typed D f k l) : Typed D f (.client pc :: k) l :=
  ⟨h.atLabel hl hb hf, by rwa [hl.clear]⟩

theorem typed_devintr [DecidableEq K] (S : D.Sound P) (hl : l.Idle) (hb : l.base = false)
    (hk : Typed D f k l) : Typed D f (devintr P c irq ++ k) l := by
  cases irq with
  | timer =>
      by_cases hc : c = 0
      · simp only [devintr, hc, ↓reduceIte]
        exact typed_entry S.clockintr hl (fun _ => hb) (fun h => absurd h Bool.true_eq_false.mp) hk
      · simpa [devintr, hc] using hk
  | external n => exact typed_entry (S.external n) hl (fun _ => hb) (fun h => absurd h Bool.true_eq_false.mp) hk

theorem typed_killed_exit (hl : l.Idle) (hk : Typed D (.proc p) k l) : Typed D (.proc p) (killed p .exit ++ k) l := by
  rw [killed, List.append_assoc, typed_acquire]
  refine ⟨hl.takes _, hl.take _, rfl, ?_⟩
  rwa [← Loc.Only.drop_eq (hl.take _), Loc.drop_take (hl.notMem _)]

/-- The lock of a process is taken for a while. -/
theorem typed_section {op : Op K L} (hwf : l.noff = 0 → l.held = ∅) (hl : l.NoProc)
    (hop : ∀ T : Loc K → Prop, T (l.take (.proc i)) → OpTyped D f (release (.proc i) ++ k) T (l.take (.proc i)) op)
    (hk : Typed D f k l) : Typed D f (acquire (.proc i) ++ op :: (release (.proc i) ++ k)) l := by
  rw [typed_acquire]
  refine ⟨hl.takes i, hop _ ?_⟩
  rw [typed_release (Loc.drops_take (hl.free i) hwf (.inl hl.mode)), Loc.drop_take (hl.free i)]
  exact hk

theorem typed_wake {chan : Chan} (hwf : l.noff = 0 → l.held = ∅) (hl : l.NoProc) (hi : i < NPROC) (hf : f ≠ .proc i)
    (hk : Typed D f k l) :
    Typed D f (acquire (.proc i) ++ .wakeTest chan i :: (release (.proc i) ++ .wakeupFrom chan (i + 1) :: k)) l :=
  typed_section (k := .wakeupFrom chan (i + 1) :: k) hwf hl (fun _ hT => ⟨hi, Set.mem_insert .., hf, hl.mode, hT⟩) ⟨hl, hk⟩

theorem typed_sleep [DecidableEq K] {chan : Chan} (hlevel : 1 < D.level lk) (hl : l.Only lk) (hk : Typed D (.proc p) k l) :
    Typed D (.proc p) (forProc P c p (.sleep chan lk) ++ k) l := by
  -- after `release(lk)` only the lock of the process is held
  have hx := hl.exchange (ne_proc_of_level hlevel p)
  simp only [forProc, List.append_assoc, List.cons_append, List.nil_append]
  rw [typed_acquire, typed_release hl.take_drops]
  refine ⟨hl.takes hlevel, rfl, hx, p, .sleeping, rfl, ⟨hx.held, hx.noff, rfl⟩, fun _ => ?_⟩
  rw [hx.setMode_normal]
  refine ⟨rfl, hx, ?_⟩
  rw [typed_release hx.drops, typed_acquire, Loc.Is.eq (hx.drop.take lk) hl rfl]
  exact ⟨hx.drop.takes lk, hk⟩

/-- `exit`: the process takes its own lock under `wait_lock`, and leaves with it. -/
theorem typed_exiting [DecidableEq K] (S : D.Sound P) (hl : l.Idle) :
    Typed D (.proc p) ([.client P.exiting] ++ acquire .wait ++ [.reparentFrom p 0, .wakeParent p] ++ acquire (.proc p) ++
      [.park p .zombie] ++ release .wait ++ sched ++ [.panic "zombie exit"] ++ k) l := by
  have hw := hl.take (.wait : Lock K)
  have hx := hw.exchange (show (.wait : Lock K) ≠ .proc p by simp)
  simp only [List.append_assoc, List.cons_append, List.nil_append]
  refine typed_entry S.exiting hl (fun h => absurd h Bool.false_ne_true) (fun _ => ⟨p, rfl⟩) ?_
  rw [typed_acquire]
  refine ⟨hl.takes _, rfl, hw, rfl, hw, ?_⟩
  rw [typed_acquire]
  refine ⟨hw.noProc_wait.takes p, rfl, Set.mem_insert .., hw.mode, .inr ⟨rfl, Set.mem_insert_of_mem _ hw.mem⟩, ?_⟩
  have hd : ((l.take .wait).take (.proc p)).Drops .wait := hw.take_drops
  have hd' : (((l.take .wait).take (.proc p)).setMode (.parking .zombie)).Drops .wait := ⟨hd.mem, hd.pops, .inr (by simp)⟩
  rw [typed_release hd']
  exact ⟨p, .zombie, rfl, ⟨hx.held, hx.noff, rfl⟩, fun h => absurd rfl h⟩

/-- The process that `myproc()` returns on this stack. -/
def Flow.me : Flow → Option Nat
  | .scheduler _ => none
  | .proc p => some p

theorem typed_afterMyproc [DecidableEq K] (S : D.Sound P) {u : Use K L} (hwf : l.noff = 0 → l.held = ∅)
    (h : Typed D f (.readProc u :: k) l) : Typed D f (afterMyproc P c u f.me ++ k) l := by
  have hexit : ∀ {p : Nat} {l : Loc K}, l.Idle → Typed D (.proc p) (killed p .exit ++ (usertrapret ++ k)) l := fun hl =>
    typed_killed_exit hl ⟨⟨_, rfl⟩, hl⟩
  cases u with
  | sleep chan lk =>
      obtain ⟨⟨p, rfl⟩, hlevel, hl, hk⟩ := h
      exact typed_sleep (P := P) (c := c) hlevel hl hk
  | wakeup chan i =>
      obtain ⟨hi, hl, hk⟩ := h
      cases f with
      | scheduler c' => simpa [afterMyproc, Flow.me] using typed_wake hwf hl hi (by simp) hk
      | proc p =>
          by_cases hp : p = i
          · subst hp
            simp only [afterMyproc, Flow.me, forProc, ↓reduceIte]
            exact ⟨hl, hk⟩
          · simpa [afterMyproc, Flow.me, forProc, hp] using typed_wake hwf hl hi (by simpa using hp) hk
  | yield =>
      obtain ⟨⟨p, rfl⟩, hl, hk⟩ := h
      have ht := hl.take (.proc p)
      simp only [afterMyproc, Flow.me, forProc, sched, List.append_assoc, List.cons_append, List.nil_append]
      rw [typed_acquire]
      refine ⟨hl.takes _, rfl, ht.mem, ht.mode, .inl rfl, p, .runnable, rfl, ⟨ht.held, ht.noff, rfl⟩, fun _ => ?_⟩
      rw [ht.setMode_normal, typed_release ht.drops, Loc.drop_take (hl.notMem _)]
      exact hk
  | sched =>
      obtain ⟨p, st, rfl, hl, hk⟩ := h
      have hpos : 0 < l.noff := by rw [hl.noff]; exact Nat.one_pos
      exact ⟨hpos, ⟨fun _ => Asker.noConfusion, fun _ => by simp [hl.held]⟩, rfl, st, hl, rfl, st, hl, hk⟩
  | preempt =>
      obtain ⟨hl, hk⟩ := h
      cases f with
      | scheduler c' => exact hk
      | proc p => exact ⟨rfl, hl, hk⟩
  | killed yes no =>
      obtain ⟨hy, hn, ⟨p, rfl⟩, hk⟩ := h
      have hp := hy.noProc.free p
      simp only [afterMyproc, Flow.me, forProc, killed, List.append_assoc]
      rw [typed_acquire]
      refine ⟨hy.noProc.takes p, Loc.drops_take hp hwf (.inl hy.mode), ?_⟩
      rw [Loc.drop_take hp]
      exact ⟨hy, hn, hk⟩
  | fork =>
      obtain ⟨⟨p, rfl⟩, hl, hk⟩ := h
      exact ⟨rfl, hl, hk⟩
  | wait =>
      obtain ⟨⟨p, rfl⟩, hl, hk⟩ := h
      simp only [afterMyproc, Flow.me, forProc, List.append_assoc]
      rw [typed_acquire]
      refine ⟨hl.takes _, rfl, hl.take .wait, ?_⟩
      rwa [← Loc.Only.drop_eq (hl.take .wait), Loc.drop_take (hl.notMem _)]
  | exit =>
      obtain ⟨⟨p, rfl⟩, hl⟩ := h
      simp only [afterMyproc, Flow.me, forProc]
      refine ⟨rfl, ?_⟩
      split
      · exact ⟨rfl, hl⟩
      · exact typed_exiting S hl
  | syscall n =>
      obtain ⟨⟨p, rfl⟩, hl⟩ := h
      -- `intr_on` turns interrupts on
      have hon := hl.setBase true
      simp only [afterMyproc, Flow.me, forProc, List.append_assoc, List.cons_append, List.nil_append]
      refine typed_killed_exit hl ⟨hl, ?_⟩
      exact typed_entry (S.syscall n) hon (fun h => absurd h Bool.false_ne_true) (fun _ => ⟨p, rfl⟩) (hexit hon)
  | fault =>
      obtain ⟨⟨p, rfl⟩, hl⟩ := h
      simp only [afterMyproc, Flow.me, forProc, List.append_assoc, List.cons_append, List.nil_append]
      exact typed_section hl.wf hl.noProc (fun _ hT => ⟨Set.mem_insert .., hT⟩) (hexit hl)
  | userInterrupt irq =>
      obtain ⟨⟨p, rfl⟩, hl, hb⟩ := h
      simp only [afterMyproc, Flow.me, forProc, List.append_assoc]
      refine typed_devintr S hl hb ?_
      split
      · exact typed_killed_exit hl ⟨⟨p, rfl⟩, hl, ⟨p, rfl⟩, hl⟩
      · exact hexit hl
  | usertrapret =>
      obtain ⟨⟨p, rfl⟩, hl⟩ := h
      exact ⟨hl, hl.setBase false, ⟨p, rfl⟩, (hl.setBase false).setBase true, rfl⟩
  | forkret =>
      obtain ⟨p, rfl, hl, hk⟩ := h
      simp only [afterMyproc, Flow.me, forProc]
      rw [typed_release hl.drops, hl.drop_eq]
      exact hk

theorem typed_afterKilled [DecidableEq K] {w : KilledUse L} (h : Typed D f (.readKilled i w :: k) l) :
    Typed D f (release (.proc i) ++ (afterKilled i b w ++ k)) l := by
  cases w with
  | exit =>
      obtain ⟨hl, rfl, hk⟩ := h
      rw [typed_release hl.drops]
      cases b with
      | false => rw [hl.drop_eq]; exact hk
      | true => exact ⟨⟨i, rfl⟩, hl.drop⟩
  | wait =>
      obtain ⟨hd, hl, rfl, hk⟩ := h
      rw [typed_release hd]
      cases b with
      | true =>
          refine (typed_release hl.drops).mpr ?_
          rw [hl.drop_eq]; exact hk
      | false => exact ⟨⟨i, rfl⟩, Nat.one_lt_two, hl, rfl, hl, hk⟩
  | client yes no =>
      obtain ⟨hd, hy, hn, hk⟩ := h
      rw [typed_release hd]
      cases b with
      | true => exact ⟨hy, hk⟩
      | false => exact ⟨hn, hk⟩

theorem typed_forkret (b : Bool) : Typed D (.proc p) forkret (.parked p b) := by
  have hl : (Loc.parked p b : Loc K).Only (.proc p) := ⟨rfl, rfl, rfl⟩
  have hi : (Loc.parked p b : Loc K).clear.Idle := ⟨rfl, rfl, rfl⟩
  exact ⟨p, rfl, hl, ⟨p, rfl⟩, hi, ⟨p, rfl⟩, hi⟩

/-! ## No call makes a process -/

theorem makes_devintr (h : Makes i (devintr P c irq ++ k)) : Makes i k := by
  cases irq <;> simp only [devintr] at h
  · split at h <;> exact h
  · exact h

theorem makes_afterMyproc {u : Use K L} {me : Option Nat} (h : Makes i (afterMyproc P c u me ++ k)) : Makes i k := by
  cases me with
  | none => cases u <;> exact h
  | some p =>
      cases u with
      | wakeup | exit =>
          simp only [afterMyproc, forProc] at h
          split at h <;> exact h
      | userInterrupt irq =>
          simp only [afterMyproc, forProc, List.append_assoc] at h
          have h := makes_devintr h
          split at h <;> exact h
      | _ => exact h

theorem makes_afterKilled {w : KilledUse L} (h : Makes i (afterKilled p b w ++ k)) : Makes i k := by
  cases w <;> cases b <;> exact h

theorem makes_kerneltrap (h : Makes i (kerneltrap P c irq ++ k)) : Makes i k := by
  rw [kerneltrap, List.append_assoc, List.append_assoc] at h
  have h := makes_devintr h
  split at h <;> exact h

end Xv6Net.Sched
