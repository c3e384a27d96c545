import Xv6Net.Sched.Lemmas.Stands
import Xv6Net.Sched.Lemmas.Step

/-!
# The invariant of locks and channels

While nobody holds a lock, its invariant holds and nobody sleeps on one of its channels while the condition of the
channel holds. While a CPU holds the lock, the code that it has left says how far it has come. The condition of a
channel becomes true by an action on the data of its lock, or by a process that ends or gets another parent; each of
them wakes the channel up before the lock is released.
-/

namespace Xv6Net.Sched

open Procs (ProcState NPROC)

variable {K L V : Type} [DecidableEq K] {D : Discipline K L} {M : Monitor K L V} {P : Program K L V} {s s' : Sys K L V}
  {maker : Nat → Nat} {c d i j n p : Nat} {k k' : List (Op K L)} {lk : Lock K} {ch : Chan}

structure Monitor.Kept (M : Monitor K L V) (s : Sys K L V) (lk : Lock K) : Prop where
  rests : (s.locks lk).cpu = none → M.Rests s lk ∅
  stands : ∀ c, (s.locks lk).cpu = some c → M.Stands s lk ∅ (s.cpus c).code

structure Watched (M : Monitor K L V) (s : Sys K L V) : Prop where
  guarded : ∀ c, Guarded M (s.cpus c).code
  context : ∀ p, dozes (s.procs p).context = none ∧ Guarded M (s.procs p).context
  sched : ∀ c, dozes (s.scheds c) = none ∧ Guarded M (s.scheds c)
  kept : ∀ lk, lk.Monitored → M.Kept s lk

/-! ## Who can sleep -/

section

omit [DecidableEq K]

/-- Only the CPU that makes the step can have begun to doze. -/
theorem Sleepy.back (hj : Sleepy s' j ch) (hcpus : ∀ d, d ≠ c → s'.cpus d = s.cpus d)
    (hst : (s'.procs j).state = .sleeping → (s'.procs j).chan = ch →
      (s.procs j).state = .sleeping ∧ (s.procs j).chan = ch ∨ dozes (s.cpus c).code = some (j, ch)) :
    Sleepy s j ch ∨ dozes (s'.cpus c).code = some (j, ch) := by
  obtain ⟨hj, ⟨hs, hc⟩ | ⟨d, hd⟩⟩ := hj
  · exact .inl ⟨hj, (hst hs hc).imp_right fun hz => ⟨c, hz⟩⟩
  · by_cases hdc : d = c
    · subst hdc; exact .inr hd
    · rw [hcpus d hdc] at hd
      exact .inl ⟨hj, .inr ⟨d, hd⟩⟩

/-- A process dozes on its own stack, under its own lock. -/
theorem typed_dozes {f : Flow} {l : Loc K} : Typed D f k l → dozes k = some (j, ch) → f = .proc j ∧ .proc j ∈ l.held := by
  fun_induction dozes k generalizing l with
  | case1 k ih => exact fun h hk => ih (l := l.pop) h.2 hk
  | case2 i ch' k =>
      rintro h ⟨⟩
      exact ⟨h.1, h.2.1.mem⟩
  | case3 => rintro - ⟨⟩

/-- A process whose lock another CPU holds does not doze. -/
theorem Inv.not_dozing (h : Inv D s maker) (hheld : .proc i ∈ (s.loc c).held) (hf : (s.cpus c).stack ≠ .proc i) :
    dozes (s.cpus d).code ≠ some (i, ch) := by
  intro hz
  obtain ⟨hd, hheld'⟩ := typed_dozes (h.flow d).typed hz
  exact hf (Option.some.inj (Eq.trans (Eq.symm hheld') hheld) ▸ hd)

theorem Loc.Only.eq_of_mem {l : Loc K} {lk' : Lock K} (h : l.Only lk') (hm : lk ∈ l.held) : lk = lk' := by rwa [h.held] at hm

theorem Loc.Is.unmonitored {l : Loc K} {n : Nat} {m : Mode} (h : l.Is {.proc i} n m) (hlk : lk.Monitored) : lk ∉ l.held := by
  rw [h.held]
  rintro rfl
  exact hlk

end

/-! ## Steps that change nothing a lock protects -/

theorem Monitor.Kept.calm (h : M.Kept s lk) (hcalm : Calm M s s' lk ∅ ∅) (hlock : (s'.locks lk).cpu = (s.locks lk).cpu)
    (hcpus : ∀ d, d ≠ c → s'.cpus d = s.cpus d)
    (hst : (s.locks lk).cpu = some c → M.Stands s lk ∅ (s.cpus c).code → M.Stands s' lk ∅ (s'.cpus c).code) : M.Kept s' lk := by
  refine ⟨fun hn => hcalm.rests (h.rests (hlock ▸ hn)), fun d hd => ?_⟩
  rw [hlock] at hd
  by_cases hdc : d = c
  · subst hdc; exact hst hd (h.stands d hd)
  · rw [hcpus d hdc]; exact hcalm.stands (h.stands d hd)

section

variable (w : Watched M s)
include w

theorem Watched.change (hcpus : ∀ d, d ≠ c → s'.cpus d = s.cpus d) (hguard : Guarded M (s'.cpus c).code)
    (hcontext : ∀ p, dozes (s'.procs p).context = none ∧ Guarded M (s'.procs p).context) (hsched : s'.scheds = s.scheds)
    (hkept : ∀ lk, lk.Monitored → M.Kept s' lk) : Watched M s' := by
  refine ⟨fun d => ?_, hcontext, hsched ▸ w.sched, hkept⟩
  by_cases hd : d = c
  · subst hd; exact hguard
  · rw [hcpus d hd]; exact w.guarded d

/-- The CPU has other code left; no process, no lock and no data changes. -/
theorem Watched.code (hcode : (s.cpus c).code = k) (hcpus : ∀ d, d ≠ c → s'.cpus d = s.cpus d)
    (hprocs : s'.procs = s.procs) (hlocks : s'.locks = s.locks) (hsched : s'.scheds = s.scheds) (hdata : s'.data = s.data)
    (hdoze : dozes (s'.cpus c).code = none ∨ dozes (s'.cpus c).code = dozes k) (hguard : Guarded M (s'.cpus c).code)
    (hst : ∀ lk, lk.Monitored → (s.locks lk).cpu = some c → M.Stands s lk ∅ k → M.Stands s lk ∅ (s'.cpus c).code) :
    Watched M s' := by
  subst hcode
  have hsleepy : ∀ j ch, Sleepy s' j ch → Sleepy s j ch := fun j ch hj => by
    rcases hj.back hcpus (by rw [hprocs]; exact fun h1 h2 => .inl ⟨h1, h2⟩) with hj' | hz
    · exact hj'
    · refine ⟨hj.1, .inr ⟨c, ?_⟩⟩
      rcases hdoze with hd | hd
      · rw [hd] at hz; cases hz
      · rw [← hd, hz]
  have hcalm : ∀ lk, Calm M s s' lk ∅ ∅ := fun lk =>
    ⟨fun _ _ => by rw [hdata], fun _ p i => by simp only [ZombieChild, hprocs]; exact id, fun _ i q => by rw [hprocs]; exact id,
      fun ch _ j => hsleepy j ch, fun _ hX => hX.elim⟩
  exact w.change hcpus hguard (hprocs ▸ w.context) hsched fun lk hlk =>
    (w.kept lk hlk).calm (hcalm lk) (by rw [hlocks]) hcpus fun ho hs => (hcalm lk).stands (hst lk hlk ho hs)

theorem Watched.setCpu {u : Cpu K L} (hcode : (s.cpus c).code = k)
    (hdoze : dozes u.code = none ∨ dozes u.code = dozes k) (hguard : Guarded M u.code)
    (hst : ∀ lk, lk.Monitored → (s.locks lk).cpu = some c → M.Stands s lk ∅ k → M.Stands s lk ∅ u.code) :
    Watched M (s.setCpu c u) :=
  w.code hcode (fun d hd => by simp [hd]) rfl rfl rfl rfl (by simpa using hdoze) (by simpa using hguard) (by simpa using hst)

theorem Watched.goto (hcode : (s.cpus c).code = k) (hk : dozes k' = none ∧ Guarded M k')
    (hst : ∀ lk, lk.Monitored → (s.locks lk).cpu = some c → M.Stands s lk ∅ k → M.Stands s lk ∅ k') :
    Watched M (s.goto c k') := w.setCpu hcode (.inl hk.1) hk.2 hst

theorem Watched.panic (msg : String) : Watched M (s.goto c [.panic msg]) :=
  w.goto rfl ⟨rfl, rfl, trivial⟩ fun _ _ _ _ => trivial

/-- The CPU changes a process, but nobody begins to sleep, or gets a zombie child. -/
theorem Watched.setProc {q : Proc K L} (hcode : (s.cpus c).code = k') (hk : dozes k = none ∧ Guarded M k)
    (hcontext : dozes q.context = none ∧ Guarded M q.context)
    (hsleep : q.state = .sleeping →
      (s.procs i).state = .sleeping ∧ q.chan = (s.procs i).chan ∨ dozes k' = some (i, q.chan))
    (hzombie : q.state = .zombie → (s.procs i).state = .zombie) (hparent : q.parent = (s.procs i).parent ∨ q.parent = none)
    (hst : ∀ lk, lk.Monitored → (s.locks lk).cpu = some c → Calm M s ((s.setProc i q).goto c k) lk ∅ ∅ →
      M.Stands s lk ∅ k' → M.Stands ((s.setProc i q).goto c k) lk ∅ k) : Watched M ((s.setProc i q).goto c k) := by
  subst hcode
  have hcpus : ∀ d, d ≠ c → ((s.setProc i q).goto c k).cpus d = s.cpus d := fun d hd => by simp [hd]
  have hpar : ∀ j r, (((s.setProc i q).goto c k).procs j).parent = some r → (s.procs j).parent = some r := fun j r hr => by
    by_cases hj : j = i
    · subst hj
      simp only [Sys.goto_procs, Sys.setProc_self] at hr
      rcases hparent with h | h
      · rw [← h, hr]
      · rw [h] at hr; cases hr
    · simpa [hj] using hr
  have hcalm : ∀ lk, Calm M s ((s.setProc i q).goto c k) lk ∅ ∅ := fun lk => by
    refine ⟨fun _ _ => rfl, fun _ r j hz => ⟨hpar j r hz.1, ?_⟩, fun _ => hpar, fun ch _ j hj => ?_, fun _ hX => hX.elim⟩
    · by_cases hji : j = i
      · subst hji; exact hzombie (by simpa using hz.2)
      · simpa [hji] using hz.2
    · refine (hj.back hcpus fun h1 h2 => ?_).resolve_right (by simp [hk.1])
      by_cases hji : j = i
      · subst hji
        simp only [Sys.goto_procs, Sys.setProc_self] at h1 h2
        rw [← h2]
        exact (hsleep h1).imp_left (And.imp_right Eq.symm)
      · exact .inl (by simpa [hji] using And.intro h1 h2)
  refine w.change hcpus (by simpa using hk.2) (fun j => ?_) rfl fun lk hlk =>
    (w.kept lk hlk).calm (hcalm lk) rfl hcpus fun ho hs => by simpa using hst lk hlk ho (hcalm lk) hs
  by_cases hj : j = i
  · subst hj; simpa using hcontext
  · simpa [hj] using w.context j

/-- A step on what a lock of the CPU protects. -/
theorem Watched.protected (lk : Lock K) (hcode : (s.cpus c).code = k) (hcpus : ∀ d, d ≠ c → s'.cpus d = s.cpus d)
    (hlocks : s'.locks = s.locks)
    (hk : dozes (s'.cpus c).code = none ∧ Guarded M (s'.cpus c).code)
    (hprocs : ∀ p, (s'.procs p).context = (s.procs p).context ∧
      ((s'.procs p).state = .sleeping → (s.procs p).state = .sleeping ∧ (s'.procs p).chan = (s.procs p).chan))
    (hsched : s'.scheds = s.scheds) (hheld : (s.locks lk).cpu = some c)
    (hother : ∀ x, .other x ≠ lk → s'.data x = s.data x)
    (hwait : lk ≠ .wait → s'.procs = s.procs)
    (hst : ∀ lk', lk' ≠ lk → lk'.Monitored → (s.locks lk').cpu = some c → M.Stands s lk' ∅ k →
      M.Stands s lk' ∅ (s'.cpus c).code)
    (hself : lk.Monitored → (∀ j ch, Sleepy s' j ch → Sleepy s j ch) → M.Stands s lk ∅ k → M.Stands s' lk ∅ (s'.cpus c).code) :
    Watched M s' := by
  subst hcode
  have hsleepy : ∀ j ch, Sleepy s' j ch → Sleepy s j ch := fun j ch hj =>
    (hj.back hcpus fun h1 h2 => .inl ⟨((hprocs j).2 h1).1, ((hprocs j).2 h1).2 ▸ h2⟩).resolve_right (by simp [hk.1])
  refine w.change hcpus hk.2 (fun p => by rw [(hprocs p).1]; exact w.context p) hsched fun lk' hlk => ?_
  by_cases hne : lk' = lk
  · subst hne
    refine ⟨fun hn => ?_, fun d hd => ?_⟩
    · rw [hlocks, hheld] at hn; cases hn
    · rw [hlocks, hheld] at hd
      cases hd
      exact hself hlk hsleepy ((w.kept lk' hlk).stands c hheld)
  · have hcalm : Calm M s s' lk' ∅ ∅ := by
      refine ⟨fun x hx => hother x (hx ▸ hne), ?_, ?_, fun ch _ j => hsleepy j ch, fun _ hX => hX.elim⟩
      · rintro rfl p i
        rw [ZombieChild, ZombieChild, hwait (Ne.symm hne)]; exact id
      · rintro rfl i q
        rw [hwait (Ne.symm hne)]; exact id
    exact (w.kept lk' hlk).calm hcalm (by rw [hlocks]) hcpus fun ho hs => hcalm.stands (hst lk' hne hlk ho hs)

theorem Watched.op {op : Op K L} (hcode : (s.cpus c).code = op :: k) : Demands M k op ∧ Guarded M k := by
  have := w.guarded c
  rwa [hcode] at this

end

section Ops

variable (h : Inv D s maker) (w : Watched M s)

include w

/-! ## Locks -/

include h in
theorem Watched.swap (hcode : (s.cpus c).code = .swap lk :: k) : Watched M (exec P s c n k (.swap lk)) := by
  obtain ⟨⟨hk, hd⟩, hg⟩ := w.op hcode
  simp only [exec]
  split
  · exact w
  rename_i hfree
  have hnone : (s.locks lk).cpu = none := by simpa [h.lock] using hfree
  have hcpus : ∀ d, d ≠ c → ((s.setLock lk ⟨true, some c⟩).goto c k).cpus d = s.cpus d := fun d hd => by simp [hd]
  have hcalm : ∀ lk', Calm M s ((s.setLock lk ⟨true, some c⟩).goto c k) lk' ∅ ∅ := fun lk' =>
    ⟨fun _ _ => rfl, fun _ _ _ => id, fun _ _ _ => id, fun ch _ j hj =>
      (hj.back hcpus fun h1 h2 => .inl ⟨h1, h2⟩).resolve_right (by simp [hk]), fun _ hX => hX.elim⟩
  refine w.change hcpus (by simpa using hg) w.context rfl fun lk' hlk => ?_
  by_cases hne : lk' = lk
  · subst hne
    have hs := (hcalm lk').stands (hd hlk s ((w.kept lk' hlk).rests hnone))
    refine ⟨by simp, fun d hd => ?_⟩
    obtain rfl : c = d := by simpa using hd
    simpa using hs
  · refine (w.kept lk' hlk).calm (hcalm lk') (by simp [hne]) hcpus fun _ hs => ?_
    have hs : M.Stands s lk' ∅ k := by rw [hcode] at hs; exact hs
    simpa using (hcalm lk').stands hs

include h in
/-- The lock is released; in `sleep` the process dozes from now on, and the condition is false. -/
theorem Watched.unlock (hcode : (s.cpus c).code = .unlock lk :: k) : Watched M (exec P s c n k (.unlock lk)) := by
  obtain ⟨hd, hg⟩ := w.op hcode
  have hheld : (s.locks lk).cpu = some c := (h.op hcode).2.1
  have hs : lk.Monitored → M.Rests s lk ∅ ∧ ∀ j ch, dozes k = some (j, ch) → M.chanLock ch = lk ∧ ¬ M.Cond s ch := fun hlk => by
    have hs := (w.kept lk hlk).stands c hheld
    simpa only [hcode, Monitor.Stands, ↓reduceIte] using hs
  have hcpus : ∀ d, d ≠ c → ((s.setLock lk ⟨false, none⟩).goto c k).cpus d = s.cpus d := fun d hd => by simp [hd]
  -- who sleeps now has slept before, or waits for a condition of this lock that is false
  have hsleepy : ∀ j ch, Sleepy ((s.setLock lk ⟨false, none⟩).goto c k) j ch →
      Sleepy s j ch ∨ M.chanLock ch = lk ∧ ¬ M.Cond s ch := fun j ch hj => by
    refine (hj.back hcpus fun h1 h2 => .inl ⟨h1, h2⟩).imp_right fun hz => ?_
    simp only [Sys.goto_self] at hz
    rcases hd with hno | hlk
    · rw [hno] at hz; cases hz
    · exact (hs hlk).2 j ch hz
  simp only [exec]
  refine w.change hcpus (by simpa using hg) w.context rfl fun lk' hlk => ?_
  by_cases hne : lk' = lk
  · subst hne
    refine ⟨fun _ => ⟨(hs hlk).1.1, fun ch hch => .inr fun j hj hc => ?_⟩, by simp⟩
    rcases hsleepy j ch hj with hj | hx
    · exact ((hs hlk).1.2 ch hch).resolve_left (Set.notMem_empty ch) j hj hc
    · exact hx.2 hc
  · have hcalm : Calm M s ((s.setLock lk ⟨false, none⟩).goto c k) lk' ∅ ∅ :=
      ⟨fun _ _ => rfl, fun _ _ _ => id, fun _ _ _ => id, fun ch hch j hj =>
        (hsleepy j ch hj).resolve_right fun hx => hne (hch.symm.trans hx.1), fun _ hX => hX.elim⟩
    refine (w.kept lk' hlk).calm hcalm (by simp [hne]) hcpus fun _ hs => ?_
    simp only [hcode, Monitor.Stands, Ne.symm hne, ↓reduceIte] at hs
    simpa using hcalm.stands hs

theorem Watched.afterHolding {b : Bool} {a : Asker} (hcode : (s.cpus c).code = k') (hk : dozes k = none ∧ Guarded M k)
    (hst : ∀ lk, M.Stands s lk ∅ k' → M.Stands s lk ∅ k) : Watched M (s.goto c (afterHolding b k a)) := by
  have hgo := w.goto hcode hk fun lk _ _ => hst lk
  cases a <;> cases b
  · exact hgo
  · exact w.panic _
  · exact w.panic _
  · exact hgo
  · exact w.panic _
  · exact hgo

/-! ## `wakeup` -/

omit w in
theorem stands_wakeTest {X : Set Chan} (hlk : lk.Monitored) :
    M.Stands s lk X (.wakeTest ch i :: (release (.proc i) ++ .wakeupFrom ch (i + 1) :: k)) ↔
      (M.chanLock ch = lk → ch ∈ X ∨ ∀ j < i, ¬ Sleepy s j ch) ∧ M.Stands s lk (insert ch X) k := by
  have hne : Lock.proc i ≠ lk := by rintro rfl; exact hlk
  simp [stands_release_of_ne hne]

omit w in
/-- The process does not sleep on the channel, and the loop goes on. -/
theorem stands_wakeNext (hcalm : Calm M s s' lk ∅ ∅) (hno : ¬ Sleepy s' i ch)
    (hs : (M.chanLock ch = lk → ch ∈ (∅ : Set Chan) ∨ ∀ j < i, ¬ Sleepy s j ch) ∧ M.Stands s lk (insert ch ∅) k) :
    M.Stands s' lk ∅ (.wakeupFrom ch (i + 1) :: k) := by
  refine ⟨fun hch => .inr (Nat.forall_lt_succ_right.mpr ⟨fun j hj hz => ?_, hno⟩), (hcalm.insert ch).stands hs.2⟩
  exact (hs.1 hch).resolve_left (Set.notMem_empty ch) j hj (hcalm.sleepy ch hch j hz)

include h in
theorem Watched.wakeTest (hcode : (s.cpus c).code = .wakeTest ch i :: k) : Watched M (exec P s c n k (.wakeTest ch i)) := by
  obtain ⟨⟨k, rfl⟩, hg⟩ := w.op hcode
  obtain ⟨-, hheld, hf, -, -⟩ := h.op hcode
  have hdoze : ∀ d, dozes (s.cpus d).code ≠ some (i, ch) := fun d => h.not_dozing hheld hf
  have hst : ∀ {s' : Sys K L V} {lk : Lock K}, lk.Monitored → Calm M s s' lk ∅ ∅ → ¬ Sleepy s' i ch →
      M.Stands s lk ∅ (.wakeTest ch i :: (release (.proc i) ++ .wakeupFrom ch (i + 1) :: k)) →
      M.Stands s' lk ∅ (release (.proc i) ++ .wakeupFrom ch (i + 1) :: k) := fun hlk hcalm hno hs =>
    (stands_release_of_ne (by rintro rfl; exact hlk)).mpr (stands_wakeNext hcalm hno ((stands_wakeTest hlk).mp hs))
  simp only [exec]
  split
  · refine w.setProc hcode ⟨rfl, hg⟩ (w.context i) (by simp) (by simp) (.inl rfl) fun lk hlk _ hcalm => hst hlk hcalm ?_
    rintro ⟨-, ⟨hs, -⟩ | ⟨d, hd⟩⟩
    · simp at hs
    · by_cases hdc : d = c
      · subst hdc
        simp [release] at hd
      · exact hdoze d (by simpa [hdc] using hd)
  · rename_i hs
    refine w.goto hcode ⟨rfl, hg⟩ fun lk hlk _ => hst hlk .refl ?_
    rintro ⟨-, hsl | ⟨d, hd⟩⟩
    · exact hs hsl
    · exact hdoze d hd

/-! ## `exit` -/

omit w [DecidableEq K] in
/-- Whoever gets a new zombie child is woken up, or awake. -/
theorem Monitor.Rests.wait {X : Set Chan} (hr : M.Rests s .wait X) (hsleepy : ∀ j ch, Sleepy s' j ch → Sleepy s j ch)
    (hnew : ∀ q z, ZombieChild s' q z → ZombieChild s q z ∨ .proc q ∈ X ∨ ∀ j, ¬ Sleepy s j (.proc q)) : M.Rests s' .wait X := by
  refine ⟨trivial, fun ch hch => ?_⟩
  cases ch with
  | null => exact .inr fun _ _ => id
  | other x => cases hch
  | proc q =>
      rcases hr.2 _ hch with hX | hq
      · exact .inl hX
      by_cases hX : .proc q ∈ X
      · exact .inl hX
      · refine .inr fun j hj => ?_
        rintro ⟨z, hz, hzc⟩
        rcases hnew q z hzc with hzc | hX' | hno
        · exact hq j (hsleepy j _ hj) ⟨z, hz, hzc⟩
        · exact hX hX'
        · exact hno j (hsleepy j _ hj)

include h in
/-- The process becomes a zombie; its parent has been woken up, and is not asleep again. -/
theorem Watched.parkZombie (hcode : (s.cpus c).code = .park i .zombie :: k) : Watched M (exec P s c n k (.park i .zombie)) := by
  obtain ⟨⟨k, rfl, hk⟩, hg⟩ := w.op hcode
  have hwait : (s.locks .wait).cpu = some c := by
    obtain ⟨-, -, -, hst, -⟩ := h.op hcode
    exact (hst.resolve_left ProcState.noConfusion).2
  simp only [exec]
  refine w.protected .wait hcode (fun d hd => by simp [hd]) rfl (by simpa using ⟨rfl, hg⟩) (fun j => ?_) rfl hwait
    (fun _ _ => rfl) (fun hne => absurd rfl hne) (fun lk _ _ _ hs => ?_) fun _ hsleepy hs => ?_
  · rcases eq_or_ne j i with rfl | hj <;> simp [*]
  · simpa using hs.2
  · obtain ⟨hno, hs⟩ := hs
    simp only [Sys.goto_self]
    rw [stands_release hk] at hs ⊢
    refine hs.wait hsleepy fun q z hz => ?_
    by_cases hzi : z = i
    · subst hzi
      exact .inr (hno q rfl (by simpa using hz.1))
    · exact .inl (by simpa [ZombieChild, hzi] using hz)

include h in
/-- A child gets another parent: `initproc`, who is woken up, or the first one, when the child is new. -/
theorem Watched.setParent {q : Nat} (hcode : (s.cpus c).code = .setParent i q :: k) : Watched M (exec P s c n k (.setParent i q)) := by
  obtain ⟨hd, hg⟩ := w.op hcode
  have hk : dozes k = none := by
    rcases hd with ⟨_, _, _, rfl⟩ | ⟨-, _, rfl, -⟩ <;> rfl
  simp only [exec]
  refine w.protected .wait hcode (fun d hd => by simp [hd]) rfl (by simpa using ⟨hk, hg⟩) (fun j => ?_) rfl (h.op hcode).1
    (fun _ _ => rfl) (fun hne => absurd rfl hne) (fun lk _ _ _ hs => ?_) fun _ hsleepy hs => ?_
  · rcases eq_or_ne j i with rfl | hj <;> simp [*]
  · have hs : M.Stands s lk ∅ k := hs
    simpa using hs
  · have hs : M.Stands s .wait ∅ k := hs
    have hz : ∀ {r z}, ZombieChild ((s.setProc i { s.procs i with parent := some q }).goto c k) r z →
        ZombieChild s r z ∨ z = i ∧ r = q ∧ (s.procs i).state = .zombie := fun {r z} hz => by
      by_cases hzi : z = i
      · subst hzi
        exact .inr ⟨rfl, by simpa [eq_comm] using hz.1, by simpa using hz.2⟩
      · exact .inl (by simpa [ZombieChild, hzi] using hz)
    simp only [Sys.goto_self]
    rcases hd with ⟨r, j, k, rfl⟩ | ⟨hmake, k, rfl, hk'⟩
    · refine ⟨fun _ => .inr (by simp), fun _ => (hs.2 rfl).wait hsleepy fun r z hzc => ?_⟩
      refine (hz hzc).imp_right fun hz => .inl ?_
      rw [hz.2.1]; exact Set.mem_insert ..
    · -- the child is not a zombie, so `wait` of the parent would not return it
      rw [stands_release hk'] at hs ⊢
      refine hs.wait hsleepy fun r z hzc => .inl ((hz hzc).resolve_right fun hz => ?_)
      have hused := ((h.flow c).making i (by rw [hcode]; exact hmake)).2.1
      rw [hz.2.2] at hused; cases hused

end Ops

end Xv6Net.Sched
