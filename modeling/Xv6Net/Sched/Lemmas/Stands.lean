import Xv6Net.Sched.Lemmas.Typed
import Xv6Net.Sched.Monitor
import Xv6Net.Sched.Spec

/-!
# What the code that is left says about channels

While a CPU holds a lock, the code it has left to do tells what is known of the data of the lock, and how it stands
with the channels of the lock. Both are read off the first operation that matters for the lock: the next label of the
program, the release of the lock, a call of `sleep`, or a loop over the processes.
-/

namespace Xv6Net.Sched

open Procs (ProcState NPROC)

variable {K L V : Type}

/-! ## Sleepers -/

/-- The process has released the lock in `sleep` and is about to set its state. -/
@[simp]
def dozes : List (Op K L) → Option (Nat × Chan)
  | .popOff :: k => dozes k
  | .sleepOn j ch :: _ => some (j, ch)
  | _ => none

/-- The process sleeps on the channel, or is about to. -/
def Sleepy (s : Sys K L V) (j : Nat) (ch : Chan) : Prop :=
  j < NPROC ∧ ((s.procs j).state = .sleeping ∧ (s.procs j).chan = ch ∨ ∃ c, dozes (s.cpus c).code = some (j, ch))

/-- The locks with channels. -/
def Lock.Monitored : Lock K → Prop
  | .wait | .other _ => True
  | _ => False

@[simp] theorem Lock.monitored_wait : (.wait : Lock K).Monitored := trivial
@[simp] theorem Lock.monitored_other (x : K) : (.other x : Lock K).Monitored := trivial
@[simp] theorem Lock.not_monitored_proc (i : Nat) : ¬ (.proc i : Lock K).Monitored := id
@[simp] theorem Lock.not_monitored_pid : ¬ (.pid : Lock K).Monitored := id

namespace Monitor

variable (M : Monitor K L V) (s : Sys K L V)

def chanLock : Chan → Lock K
  | .null | .proc _ => .wait
  | .other n => .other (M.lockOf n)

/-- What a sleeper on the channel waits for. -/
def Cond : Chan → Prop
  | .null => False
  | .proc p => ∃ i, i < NPROC ∧ ZombieChild s p i
  | .other n => M.cond n (s.data (M.lockOf n))

/-- Nobody sleeps on the channel while its condition holds. -/
def Quiet (ch : Chan) : Prop := ∀ j, Sleepy s j ch → ¬ M.Cond s ch

def LockInv : Lock K → Prop
  | .other x => M.inv x (s.data x)
  | _ => True

/-- All is well with the lock, but for the channels in `X`. -/
def Rests (lk : Lock K) (X : Set Chan) : Prop := M.LockInv s lk ∧ ∀ ch, M.chanLock ch = lk → ch ∈ X ∨ M.Quiet s ch

/-- What is known of a lock at a label. -/
def At (lk : Lock K) (X : Set Chan) (pc : L) : Prop := ∀ x, lk = .other x →
  M.asserts pc x (s.data x) ∧ ∀ n, M.lockOf n = x → M.owes pc n ∨ .other n ∈ X ∨ M.Quiet s (.other n)

variable [DecidableEq K]

/-- All is well with a lock whose holder has the code left to do, once the channels in `X` are woken up. -/
@[simp]
def Stands (lk : Lock K) : Set Chan → List (Op K L) → Prop
  | _, [] => True
  | X, .client pc :: _ => M.At s lk X pc
  | X, .readProc (.killed yes no) :: _ | X, .readKilled _ (.client yes no) :: _ => M.At s lk X yes ∧ M.At s lk X no
  | X, .unlock lk' :: k =>
      if lk' = lk then M.Rests s lk X ∧ ∀ j ch, dozes k = some (j, ch) → M.chanLock ch = lk ∧ ¬ M.Cond s ch
      else Stands lk X k
  | X, .readProc (.sleep ch lk') :: k =>
      if lk' = lk then M.Rests s lk X ∧ M.chanLock ch = lk ∧ ¬ M.Cond s ch else Stands lk X k
  | X, .readProc (.wakeup ch i) :: k | X, .wakeupFrom ch i :: k | X, .wakeTest ch i :: k =>
      (M.chanLock ch = lk → ch ∈ X ∨ ∀ j < i, ¬ Sleepy s j ch) ∧ Stands lk (insert ch X) k
  | X, .readKilled p .wait :: _ => lk = .wait → M.Rests s lk X ∧ ∀ j < NPROC, ¬ ZombieChild s p j
  | X, .waitFrom p i _ :: _ | X, .waitTest p i :: _ => lk = .wait → M.Rests s lk X ∧ ∀ j < i, ¬ ZombieChild s p j
  | X, .reparentFrom _ _ :: _ | X, .wakeParent _ :: _ => lk = .wait → M.Rests s lk X
  | X, .park i .zombie :: k =>
      (∀ q, M.chanLock (.proc q) = lk → (s.procs i).parent = some q → .proc q ∈ X ∨ ∀ j, ¬ Sleepy s j (.proc q)) ∧
        Stands lk X k
  | X, _ :: k => Stands lk X k

/-- Nothing more is known than when the lock has just been taken. -/
def Enters (M : Monitor K L V) (lk : Lock K) (k : List (Op K L)) : Prop := ∀ s, M.Rests s lk ∅ → M.Stands s lk ∅ k

end Monitor

/-- `exit` after the parent has been woken up. -/
def leave (p : Nat) (k : List (Op K L)) : List (Op K L) := acquire (.proc p) ++ .park p .zombie :: (release .wait ++ k)

section Codes

variable [DecidableEq K] (M : Monitor K L V)

/-- What an operation demands of the code behind it, whatever the state. -/
@[simp]
def Demands (k : List (Op K L)) : Op K L → Prop
  | .popOff => True
  | .unlock lk => dozes k = none ∨ lk.Monitored
  | .swap lk => dozes k = none ∧ (lk.Monitored → M.Enters lk k)
  | .readProc (.sleep _ lk) => dozes k = none ∧ lk.Monitored ∧ M.Enters lk k
  | .wakeTest ch i => ∃ k', k = release (.proc i) ++ .wakeupFrom ch (i + 1) :: k'
  | .setParent i q =>
      (∃ p j k', k = .wakeupFrom (.proc q) 0 :: .reparentFrom p j :: k') ∨
        Makes i k ∧ ∃ k', k = release .wait ++ k' ∧ dozes k' = none
  | .reparentFrom p _ => ∃ k', k = .wakeParent p :: leave p k' ∧ dozes k' = none
  | .wakeParent p => ∃ k', k = leave p k' ∧ dozes k' = none
  | .park _ .zombie => ∃ k', k = release .wait ++ k' ∧ dozes k' = none
  | _ => dozes k = none

@[simp]
def Guarded : List (Op K L) → Prop
  | [] => True
  | op :: k => Demands M k op ∧ Guarded k

end Codes

variable {M : Monitor K L V} {s s' : Sys K L V} {lk lk' : Lock K} {ch : Chan} {X Y : Set Chan} {k : List (Op K L)} {p i : Nat}

theorem Program.SleepsUnder.sound {P : Program K L V} {lockOf : Nat → K} (h : P.SleepsUnder lockOf) (D : Discipline K L) :
    (Monitor.silent lockOf : Monitor K L V).Sound D P := by
  intro pc
  cases hI : P.instr pc with
  | sleep chan k next => simpa [Monitor.Allows, Monitor.Closes, Monitor.silent] using h pc chan k next hI
  | _ => simp [Monitor.Allows, Monitor.Carries, Monitor.Closes, Monitor.silent]

/-! ## What a step leaves alone -/

/-- Nothing that the lock protects has changed, nobody has begun to sleep on one of its channels, and nobody sleeps on
those that are no longer left out. -/
structure Calm (M : Monitor K L V) (s s' : Sys K L V) (lk : Lock K) (X Y : Set Chan) : Prop where
  data : ∀ x, lk = .other x → s'.data x = s.data x
  zombie : lk = .wait → ∀ p i, ZombieChild s' p i → ZombieChild s p i
  parent : lk = .wait → ∀ i q, (s'.procs i).parent = some q → (s.procs i).parent = some q
  sleepy : ∀ ch, M.chanLock ch = lk → ∀ j, Sleepy s' j ch → Sleepy s j ch
  woken : ∀ ch ∈ X, M.chanLock ch = lk → ch ∈ Y ∨ ∀ j, ¬ Sleepy s' j ch

namespace Calm

theorem refl : Calm M s s lk X X := ⟨fun _ _ => rfl, fun _ _ _ => id, fun _ _ _ => id, fun _ _ _ => id, fun _ hX _ => .inl hX⟩

section

variable (h : Calm M s s' lk X Y)
include h

theorem cond (hch : M.chanLock ch = lk) (hc : M.Cond s' ch) : M.Cond s ch := by
  cases ch with
  | null => exact hc
  | proc p =>
      obtain ⟨i, hi, hz⟩ := hc
      exact ⟨i, hi, h.zombie hch.symm p i hz⟩
  | other n => simpa only [Monitor.Cond, h.data _ hch.symm] using hc

theorem quiet (hch : M.chanLock ch = lk) (hq : ch ∈ X ∨ M.Quiet s ch) : ch ∈ Y ∨ M.Quiet s' ch := by
  rcases hq with hX | hq
  · exact (h.woken ch hX hch).imp_right fun hno j hj => absurd hj (hno j)
  · exact .inr fun j hj hc => hq j (h.sleepy ch hch j hj) (h.cond hch hc)

theorem rests (hr : M.Rests s lk X) : M.Rests s' lk Y := by
  refine ⟨?_, fun ch hch => h.quiet hch (hr.2 ch hch)⟩
  cases lk with
  | other x => simp only [Monitor.LockInv, h.data x rfl]; exact hr.1
  | _ => trivial

theorem atLabel {pc : L} (ha : M.At s lk X pc) : M.At s' lk Y pc := by
  rintro x rfl
  obtain ⟨hasserts, hq⟩ := ha x rfl
  refine ⟨by rw [h.data x rfl]; exact hasserts, fun n hn => (hq n hn).imp_right (h.quiet ?_)⟩
  rw [Monitor.chanLock, hn]

theorem insert (ch : Chan) : Calm M s s' lk (insert ch X) (insert ch Y) := by
  refine ⟨h.data, h.zombie, h.parent, h.sleepy, fun ch' hX hch => ?_⟩
  rcases hX with rfl | hX
  · exact .inl (Set.mem_insert ..)
  · exact (h.woken ch' hX hch).imp_left (Set.mem_insert_of_mem _)

end

variable [DecidableEq K]

theorem stands : Calm M s s' lk X Y → M.Stands s lk X k → M.Stands s' lk Y k := by
  fun_induction Monitor.Stands M s lk X k generalizing Y with
  | case1 => exact fun _ => id
  | case2 => exact fun h => h.atLabel
  | case3 | case4 => exact fun h => And.imp h.atLabel h.atLabel
  | case5 X k =>
      rintro h ⟨hr, hd⟩
      simp only [Monitor.Stands, ↓reduceIte]
      exact ⟨h.rests hr, fun j ch hk => ⟨(hd j ch hk).1, fun hc => (hd j ch hk).2 (h.cond (hd j ch hk).1 hc)⟩⟩
  | case6 X lk' k hne ih => simpa only [Monitor.Stands, hne, ↓reduceIte] using ih
  | case7 X ch k =>
      rintro h ⟨hr, hch, hc⟩
      simp only [Monitor.Stands, ↓reduceIte]
      exact ⟨h.rests hr, hch, fun hc' => hc (h.cond hch hc')⟩
  | case8 X ch lk' k hne ih => simpa only [Monitor.Stands, hne, ↓reduceIte] using ih
  | case9 X ch i k ih | case10 X ch i k ih | case11 X ch i k ih =>
      rintro h ⟨hw, hk⟩
      refine ⟨fun hch => ?_, ih (h.insert ch) hk⟩
      rcases hw hch with hX | hno
      · exact (h.woken ch hX hch).imp_right fun hno j _ => hno j
      · exact .inr fun j hj hs => hno j hj (h.sleepy ch hch j hs)
  | case12 | case13 | case14 =>
      exact fun h hr hlk => ⟨h.rests (hr hlk).1, fun j hj hz => (hr hlk).2 j hj (h.zombie hlk _ j hz)⟩
  | case15 | case16 => exact fun h hr hlk => h.rests (hr hlk)
  | case17 X i k ih =>
      rintro h ⟨hw, hk⟩
      refine ⟨fun q hch hq => ?_, ih h hk⟩
      rcases hw q hch (h.parent hch.symm i q hq) with hX | hno
      · exact h.woken _ hX hch
      · exact .inr fun j hj => hno j (h.sleepy _ hch j hj)
  | case18 =>
      rename_i ih
      rw [Monitor.Stands] <;> first | exact ih | assumption

omit [DecidableEq K] in
/-- A channel that nobody sleeps on needs no waking up. -/
theorem woken_up (hno : M.chanLock ch = lk → ∀ j, ¬ Sleepy s j ch) : Calm M s s lk (Insert.insert ch X) X := by
  refine ⟨fun _ _ => rfl, fun _ _ _ => id, fun _ _ _ => id, fun _ _ _ => id, fun ch' hX hch => ?_⟩
  rcases hX with rfl | hX
  · exact .inr (hno hch)
  · exact .inl hX

end Calm

/-! ## The calls -/

section Calls

variable [DecidableEq K] {P : Program K L V} {c : Nat} {irq : Irq}

theorem guarded_acquire : Guarded M (acquire lk ++ k) ↔ dozes k = none ∧ (lk.Monitored → M.Enters lk k) ∧ Guarded M k := by
  simp [acquire, and_assoc]

theorem guarded_release (hk : dozes k = none) : Guarded M (release lk ++ k) ↔ Guarded M k := by
  simp [release, hk]

theorem stands_acquire : M.Stands s lk X (acquire lk' ++ k) ↔ M.Stands s lk X k := Iff.rfl

theorem stands_release (hk : dozes k = none) : M.Stands s lk X (release lk ++ k) ↔ M.Rests s lk X := by
  simp [release, hk]

theorem stands_release_of_ne (hne : lk' ≠ lk) : M.Stands s lk X (release lk' ++ k) ↔ M.Stands s lk X k := by
  simp [release, hne]

theorem stands_leave (hk : dozes k = none) : M.Stands s .wait X (leave p k) ↔
    (∀ q, (s.procs p).parent = some q → .proc q ∈ X ∨ ∀ j, ¬ Sleepy s j (.proc q)) ∧ M.Rests s .wait X := by
  rw [leave, stands_acquire]
  simp only [Monitor.Stands, Monitor.chanLock, stands_release hk, forall_const]

theorem Demands.dozes_readProc {u : Use K L} (h : Demands M k (.readProc u)) : dozes k = none := by
  cases u <;> first | exact h | exact h.1

theorem guarded_devintr (hk : dozes k = none) (hg : Guarded M k) :
    dozes (devintr P c irq ++ k) = none ∧ Guarded M (devintr P c irq ++ k) := by
  cases irq with
  | timer => by_cases hc : c = 0 <;> simp [devintr, hc, hk, hg]
  | external n => simp [devintr, hk, hg]

theorem enters_wait : M.Enters .wait (.waitFrom p 0 false :: k) :=
  fun _ hr _ => ⟨hr, fun j hj => absurd hj (Nat.not_lt_zero j)⟩

theorem guarded_afterMyproc {u : Use K L} {me : Option Nat} (hd : Demands M k (.readProc u)) (hg : Guarded M k) :
    dozes (afterMyproc P c u me ++ k) = none ∧ Guarded M (afterMyproc P c u me ++ k) := by
  have hk := hd.dozes_readProc
  cases me with
  | none => cases u <;> simp [afterMyproc, acquire, release, hk, hg]
  | some p =>
      cases u with
      | sleep ch lk =>
          simp [afterMyproc, forProc, acquire, release, sched, hk, hg, hd.2.1, hd.2.2]
      | wakeup ch i => by_cases hp : p = i <;> simp [afterMyproc, forProc, acquire, release, hp, hk, hg]
      | wait => simp [afterMyproc, forProc, acquire, hk, hg, enters_wait]
      | exit =>
          by_cases hp : p = initproc
          · simp [afterMyproc, forProc, hp, hk, hg]
          · have hcode : afterMyproc P c .exit (some p) ++ k = .threadTest p :: .client P.exiting :: (acquire .wait ++
                .reparentFrom p 0 :: .wakeParent p :: leave p (sched ++ .panic "zombie exit" :: k)) := by
              simp [afterMyproc, forProc, hp, leave]
            have hleave : Guarded M (leave p (sched ++ .panic "zombie exit" :: k)) :=
              guarded_acquire.mpr ⟨rfl, by simp, ⟨_, rfl, rfl⟩, (guarded_release rfl).mpr ⟨rfl, hk, hg⟩⟩
            rw [hcode]
            exact ⟨rfl, rfl, rfl, guarded_acquire.mpr ⟨rfl, fun _ _ hr _ => hr, ⟨_, rfl, rfl⟩, ⟨_, rfl, rfl⟩, hleave⟩⟩
      | userInterrupt irq =>
          simp only [afterMyproc, forProc, List.append_assoc]
          apply guarded_devintr <;> by_cases hi : irq = .timer <;>
            simp [hi, killed, acquire, yield, usertrapret, hk, hg]
      | _ =>
          simp [afterMyproc, forProc, killed, acquire, release, sched, usertrapret, hk, hg]

theorem guarded_afterKilled {b : Bool} {w : KilledUse L} (hk : dozes k = none) (hg : Guarded M k) :
    dozes (afterKilled p b w ++ k) = none ∧ Guarded M (afterKilled p b w ++ k) := by
  cases w <;> cases b <;>
    simp [afterKilled, exit, sleep, release, hk, hg, enters_wait]

theorem guarded_kerneltrap (hk : dozes k = none) (hg : Guarded M k) :
    dozes (kerneltrap P c irq ++ k) = none ∧ Guarded M (kerneltrap P c irq ++ k) := by
  simp only [kerneltrap, List.append_assoc]
  apply guarded_devintr <;> by_cases hi : irq = .timer <;> simp [hi, hk, hg]

end Calls

end Xv6Net.Sched
