import Mathlib.Data.Fintype.EquivFin
import Xv6Net.Proc.Lemmas.Family
import Xv6Net.Proc.Threads

/-!
# Thread tables over calls

As long as `JoinsFirst` holds, only live processes have entries in their thread tables, and what the tables say is
well-formed.
-/

namespace Xv6Net.Procs

open Kernel Vm Lib

variable {m m' : Machine} {g g' : Slot → Nat} {made made' : Slot → Bool} {s np : Slot} {c : Crew} {j : Joining}
  {t : Slot}

structure TableInv (m : Machine) (g : Slot → Nat) (made : Slot → Bool) : Prop where
  entries : ∀ p i t, (m.proc p).state ≠ .unused → (m.proc p).infantThreads i = some t →
    (m.proc t).state ≠ .unused ∧ (m.proc t).isThread = true ∧ (m.proc t).parent = some p
  once : ∀ p i i' t, (m.proc p).state ≠ .unused → (m.proc p).infantThreads i = some t →
    (m.proc p).infantThreads i' = some t → i = i'
  fresh : ∀ p, (m.proc p).state ≠ .unused → made p = false → ∀ i, (m.proc p).infantThreads i = none
  placed : ∀ t, (m.proc t).state.Live → (m.proc t).isThread = true →
    ∃ p i, (m.proc p).state ≠ .unused ∧ (m.proc p).pid = g t ∧ (m.proc p).infantThreads i = some t
  dead : ∀ p, ¬ (m.proc p).state.Live → ∀ i, (m.proc p).infantThreads i = none
  own : ∀ p, (m.proc p).state.Live → (m.proc p).isThread = false → g p = (m.proc p).pid

theorem TableInv.wellFormed (h : TableInv c.machine c.group c.made) : c.WellFormed where
  entries := h.entries
  once p p' i i' t hp hp' hi hi' := by
    have hparent := (h.entries p i t hp hi).2.2
    rw [(h.entries p' i' t hp' hi').2.2] at hparent
    obtain rfl := Option.some.inj hparent
    exact ⟨rfl, h.once p' i i' t hp hi hi'⟩
  fresh := h.fresh
  placed := h.placed

/-- A process with an entry in its table is live. -/
theorem TableInv.live (h : TableInv m g made) {p : Slot} {i : Fin MAX_THREADS}
    (hi : (m.proc p).infantThreads i = some t) : (m.proc p).state.Live := by
  by_contra hn
  rw [h.dead p hn i] at hi
  cases hi

/-- No table of a process in use names `t`. -/
def Unlisted (m : Machine) (t : Slot) : Prop :=
  ∀ p i, (m.proc p).state ≠ .unused → (m.proc p).infantThreads i ≠ some t

theorem TableInv.unlisted (h : TableInv m g made) (ht : (m.proc t).state = .unused) : Unlisted m t :=
  fun p i hp hi => (h.entries p i t hp hi).1 ht

/-! ## Calls that make no process -/

/-- The same process for the thread tables: it may have gone to sleep or woken up. -/
structure SameEntry (p p' : Proc) : Prop where
  unused : p'.state = .unused ↔ p.state = .unused
  live : p'.state.Live ↔ p.state.Live
  isThread : p'.isThread = p.isThread
  parent : p'.parent = p.parent
  pid : p'.pid = p.pid
  infantThreads : p'.infantThreads = p.infantThreads

theorem Proc.Alike.sameEntry {p p' : Proc} (h : p.Alike p') : SameEntry p p' where
  unused := by rw [h.state]
  live := by rw [h.state]
  isThread := h.isThread
  parent := h.parent
  pid := (congrArg Proc.pid h :)
  infantThreads := h.infantThreads

theorem TableInv.congr (h : TableInv m g made) (hs : ∀ t, SameEntry (m.proc t) (m'.proc t)) : TableInv m' g made := by
  refine ⟨fun p i t hp hi => ?_, fun p i i' t hp hi hi' => ?_, fun p hp hm i => ?_, fun t hl ht => ?_, fun p hp i => ?_,
    fun p hp ht => ?_⟩
  · rw [ne_eq, (hs p).unused] at hp
    rw [(hs p).infantThreads] at hi
    rw [ne_eq, (hs t).unused, (hs t).isThread, (hs t).parent]
    exact h.entries p i t hp hi
  · rw [ne_eq, (hs p).unused] at hp
    rw [(hs p).infantThreads] at hi hi'
    exact h.once p i i' t hp hi hi'
  · rw [ne_eq, (hs p).unused] at hp
    rw [(hs p).infantThreads]
    exact h.fresh p hp hm i
  · rw [(hs t).live] at hl
    rw [(hs t).isThread] at ht
    obtain ⟨p, i, hp, hpid, hi⟩ := h.placed t hl ht
    exact ⟨p, i, by rwa [ne_eq, (hs p).unused], by rw [(hs p).pid]; exact hpid, by rw [(hs p).infantThreads]; exact hi⟩
  · rw [(hs p).live] at hp
    rw [(hs p).infantThreads]
    exact h.dead p hp i
  · rw [(hs p).live] at hp
    rw [(hs p).isThread] at ht
    rw [(hs p).pid]
    exact h.own p hp ht

/-- Slots that no table names are reset. -/
theorem TableInv.reset (h : TableInv m g made)
    (hr : ∀ t, m'.proc t = m.proc t ∨ ¬ (m.proc t).state.Live ∧ Unlisted m t ∧ Reset (m.proc t) (m'.proc t))
    (hg : ∀ t, (m'.proc t).state ≠ .unused → g' t = g t ∧ made' t = made t) : TableInv m' g' made' := by
  have huse : ∀ {t}, (m'.proc t).state ≠ .unused → m'.proc t = m.proc t := fun {t} ht =>
    (hr t).resolve_right fun h' => ht h'.2.2.state
  refine ⟨fun p i t hp hi => ?_, fun p i i' t hp hi hi' => ?_, fun p hp hm i => ?_, fun t hl ht => ?_, fun p hp i => ?_,
    fun p hp ht => ?_⟩
  · have hsp := huse hp
    rw [hsp] at hp hi
    have ht : m'.proc t = m.proc t := (hr t).resolve_right fun h' => h'.2.1 p i hp hi
    rw [ht]
    exact h.entries p i t hp hi
  · have hsp := huse hp
    rw [hsp] at hp hi hi'
    exact h.once p i i' t hp hi hi'
  · have hsp := huse hp
    rw [(hg p hp).2] at hm
    rw [hsp] at hp ⊢
    exact h.fresh p hp hm i
  · have hgt := (hg t hl.ne_unused).1
    have hst := huse hl.ne_unused
    rw [hst] at hl ht
    obtain ⟨p, i, hp, hpid, hi⟩ := h.placed t hl ht
    have hsp : m'.proc p = m.proc p := (hr p).resolve_right fun h' => h'.1 (h.live hi)
    exact ⟨p, i, by rwa [hsp], by rw [hsp, hgt]; exact hpid, by rwa [hsp]⟩
  · rcases hr p with hs | ⟨hn, -, hreset⟩
    · rw [hs] at hp ⊢; exact h.dead p hp i
    · cases hi : (m'.proc p).infantThreads i with
      | none => rfl
      | some t =>
          have := hreset.infants i t hi
          rw [h.dead p hn i] at this
          cases this
  · have hgp := (hg p hp.ne_unused).1
    have hsp := huse hp.ne_unused
    rw [hsp] at hp ht ⊢
    rw [hgp]
    exact h.own p hp ht

theorem TableInv.notMade (h : TableInv m g made) (hn : NotMade m m')
    (hg : ∀ t, (m'.proc t).state ≠ .unused → g' t = g t ∧ made' t = made t) : TableInv m' g' made' :=
  h.reset (fun t => (hn.reset t).imp_right fun ⟨hu, hr⟩ => ⟨hu ▸ ProcState.not_live_unused, h.unlisted hu, hr⟩) hg

/-- `wait` frees a child that no table names. -/
theorem TableInv.wait {addr : Nat} (h : TableInv m g made) (hz : ∀ t ∈ zombieChild m s, t ∉ m.infants s) :
    Ensures (wait m s addr) fun (_, m') => TableInv m' g made := by
  unfold Procs.wait
  split
  · rename_i c hc
    have hfound := List.find?_some hc
    simp only [decide_eq_true_eq] at hfound
    obtain ⟨hparent, hzombie⟩ := hfound
    split
    · exact .error
    · split
      · exact .ok h
      · refine freeproc_proc.bind fun m' ⟨_, hp⟩ => .ok (h.reset (fun t => ?_) fun _ _ => ⟨rfl, rfl⟩)
        by_cases ht : t = c
        · subst ht
          refine .inr ⟨hzombie ▸ ProcState.not_live_zombie, fun p i hp hi => ?_, ?_⟩
          · -- the table that names a thread is the one of its parent
            have hpar := (h.entries p i t hp hi).2.2
            rw [hparent] at hpar
            obtain rfl := Option.some.inj hpar
            exact hz t hc (mem_infants.mpr ⟨i, hi⟩)
          · rw [hp, Function.update_self]; exact .freed _
        · exact .inl (by rw [hp, Function.update_of_ne ht])
  · split <;> exact .ok h

/-! ## Calls that make a process -/

/-- What `fork` and `create_thread` make of the thread tables: the new process has no entries and is entered at `place`,
if it is a thread. -/
structure EntersTable (m m' : Machine) (np : Slot) (place : Option (Slot × Fin MAX_THREADS)) : Prop where
  unused : (m.proc np).state = .unused
  used : (m'.proc np).state ≠ .unused
  isThread : (m'.proc np).isThread = place.isSome
  empty : ∀ i, (m'.proc np).infantThreads i = none
  same : ∀ t, t ≠ np → (m'.proc t).state = (m.proc t).state ∧ (m'.proc t).isThread = (m.proc t).isThread ∧
    (m'.proc t).parent = (m.proc t).parent ∧ (m'.proc t).pid = (m.proc t).pid
  table : ∀ p i t, p ≠ np → ((m'.proc p).infantThreads i = some t ↔
    (m.proc p).infantThreads i = some t ∨ place = some (p, i) ∧ t = np)
  parent : ∀ p i, place = some (p, i) → (m.proc p).state.Live ∧ (m'.proc np).parent = some p

theorem EntersTable.ne {place : Option (Slot × Fin MAX_THREADS)} (he : EntersTable m m' np place)
    (ht : (m.proc t).state ≠ .unused) : t ≠ np := by
  rintro rfl
  exact ht he.unused

theorem TableInv.entered {place : Option (Slot × Fin MAX_THREADS)} (h : TableInv m g made) (he : EntersTable m m' np place)
    (hg : ∀ t, t ≠ np → g' t = g t) (hgn : g' np = place.elim (m'.proc np).pid fun e => (m.proc e.1).pid)
    (hmade : ∀ t, t ≠ np → made' t = false → made t = false ∧ ∀ i, place ≠ some (t, i)) : TableInv m' g' made' := by
  have hlisted := h.unlisted he.unused
  -- only the new process has other entries or is another process
  have hold : ∀ {p i t}, (m'.proc p).state ≠ .unused → (m'.proc p).infantThreads i = some t → p ≠ np ∧
      (m.proc p).state ≠ .unused ∧ ((m.proc p).infantThreads i = some t ∨ place = some (p, i) ∧ t = np) := by
    intro p i t hp hi
    have hpn : p ≠ np := by
      rintro rfl
      rw [he.empty] at hi
      cases hi
    rw [(he.same p hpn).1] at hp
    exact ⟨hpn, hp, (he.table p i t hpn).mp hi⟩
  refine ⟨fun p i t hp hi => ?_, fun p i i' t hp hi hi' => ?_, fun p hp hm i => ?_, fun t hl ht => ?_, fun p hp i => ?_,
    fun p hp ht => ?_⟩
  · obtain ⟨-, hp, hi | ⟨hplace, rfl⟩⟩ := hold hp hi
    · have hentry := h.entries p i t hp hi
      obtain ⟨h₁, h₂, h₃, -⟩ := he.same t (he.ne hentry.1)
      rw [h₁, h₂, h₃]
      exact hentry
    · exact ⟨he.used, by rw [he.isThread, hplace]; rfl, (he.parent p i hplace).2⟩
  · obtain ⟨-, hp, hi⟩ := hold hp hi
    obtain ⟨-, -, hi'⟩ := hold ‹_› hi'
    rcases hi with hi | ⟨hplace, ht⟩ <;> rcases hi' with hi' | ⟨hplace', ht'⟩
    · exact h.once p i i' t hp hi hi'
    · rw [ht'] at hi; exact absurd hi (hlisted p i hp)
    · rw [ht] at hi'; exact absurd hi' (hlisted p i' hp)
    · cases hplace.symm.trans hplace'; rfl
  · cases hi : (m'.proc p).infantThreads i with
    | none => rfl
    | some t =>
        obtain ⟨hpn, hp, hi⟩ := hold hp hi
        obtain ⟨hm, hnot⟩ := hmade p hpn hm
        rcases hi with hi | ⟨hplace, -⟩
        · rw [h.fresh p hp hm i] at hi; cases hi
        · exact absurd hplace (hnot i)
  · by_cases htn : t = np
    · subst htn
      rw [he.isThread] at ht
      obtain ⟨⟨p, i⟩, hplace⟩ := Option.isSome_iff_exists.mp ht
      have hp := (he.parent p i hplace).1.ne_unused
      obtain ⟨h₁, -, -, h₄⟩ := he.same p (he.ne hp)
      refine ⟨p, i, by rwa [h₁], ?_, (he.table p i t (he.ne hp)).mpr (.inr ⟨hplace, rfl⟩)⟩
      rw [h₄, hgn, hplace]
      rfl
    · obtain ⟨h₁, h₂, -, -⟩ := he.same t htn
      rw [h₁] at hl
      rw [h₂] at ht
      obtain ⟨p, i, hp, hpid, hi⟩ := h.placed t hl ht
      obtain ⟨h₁, -, -, h₄⟩ := he.same p (he.ne hp)
      exact ⟨p, i, by rwa [h₁], by rw [h₄, hg t htn]; exact hpid, (he.table p i t (he.ne hp)).mpr (.inl hi)⟩
  · cases hi : (m'.proc p).infantThreads i with
    | none => rfl
    | some t =>
        by_cases hpn : p = np
        · subst hpn; rw [he.empty] at hi; cases hi
        · rw [(he.same p hpn).1] at hp
          rcases (he.table p i t hpn).mp hi with hi | ⟨hplace, -⟩
          · exact absurd (h.live hi) hp
          · exact absurd (he.parent p i hplace).1 hp
  · by_cases hpn : p = np
    · subst hpn
      have hplace : place = none := by simpa [he.isThread] using ht
      rw [hgn, hplace]
      rfl
    · obtain ⟨h₁, h₂, -, h₄⟩ := he.same p hpn
      rw [h₁] at hp
      rw [h₂] at ht
      rw [h₄, hg p hpn]
      exact h.own p hp ht

/-- Nothing is left in the table of a slot that was unused. -/
theorem TableInv.empty_of_cleared (h : TableInv m g made) (hunused : (m.proc np).state = .unused)
    (hcleared : (m'.proc np).infantThreads = clearInfants (m.proc np).infantThreads) (i : Fin MAX_THREADS) :
    (m'.proc np).infantThreads i = none := by
  rw [hcleared, clearInfants]
  split
  · rfl
  · exact h.dead np (hunused ▸ ProcState.not_live_unused) i

theorem TableInv.fork (h : TableInv m g made) (hn : Forked m m' s np) (hg : ∀ t, t ≠ np → g' t = g t)
    (hgn : g' np = (m'.proc np).pid) (hmade : ∀ t, t ≠ np → made' t = made t) : TableInv m' g' made' := by
  have hunused := unusedSlot_state hn.slot
  have he : EntersTable m m' np none := by
    refine ⟨hunused, by rw [hn.state]; decide, hn.isThread, h.empty_of_cleared hunused hn.infants, fun t ht => ?_,
      fun p i t hp => ?_, nofun⟩
    · rw [hn.others t ht]; exact ⟨rfl, rfl, rfl, rfl⟩
    · rw [hn.others p hp]; simp
  exact h.entered he hg hgn fun t ht hm => ⟨by rw [← hmade t ht]; exact hm, nofun⟩

theorem threadIdx_free {infants : Fin MAX_THREADS → Option Slot} (h : ∃ i, infants i = none) :
    infants (threadIdx infants) = none := by
  obtain ⟨i, hi⟩ := h
  unfold threadIdx
  cases hf : (List.finRange MAX_THREADS).find? fun i => infants i = none with
  | none =>
      rw [List.find?_eq_none] at hf
      exact absurd hi (by simpa using hf i (List.mem_finRange i))
  | some j => simpa using List.find?_some hf

section

variable (h : TableInv m g made)
include h

/-- The table has an entry for every slot of the process table but its own, so one is free. -/
theorem TableInv.exists_free (hs : (m.proc s).state ≠ .unused)
    (hnp : (m.proc np).state = .unused) : ∃ i, (m.proc s).infantThreads i = none := by
  by_contra hfull
  rw [not_exists] at hfull
  choose f hf using fun i => Option.ne_none_iff_exists'.mp (hfull i)
  have hinj : Function.Injective f := by
    intro i i' he
    exact h.once s i i' (f i) hs (hf i) (he ▸ hf i')
  have hsurj : Function.Surjective f :=
    ((Fintype.bijective_iff_injective_and_card f).mpr ⟨hinj, rfl⟩).2
  obtain ⟨i, rfl⟩ := hsurj np
  exact (h.entries s i (f i) hs (hf i)).1 hnp

theorem TableInv.createThread (hrun : (m.proc s).state = .runnable)
    (hthread : (m.proc s).isThread = false) (hn : ThreadMade m m' s np) (hg : ∀ t, t ≠ np → g' t = g t)
    (hgn : g' np = g s) (hmade : ∀ t, t ≠ np → t ≠ s → made' t = made t) (hmades : made' s = true) :
    TableInv m' g' made' := by
  have hunused := unusedSlot_state hn.slot
  have huse : (m.proc s).state ≠ .unused := by rw [hrun]; decide
  have hlive : (m.proc s).state.Live := hrun ▸ ProcState.live_runnable
  have hfree := threadIdx_free (h.exists_free huse hunused)
  have he : EntersTable m m' np (some (s, threadIdx (m.proc s).infantThreads)) := by
    refine ⟨hunused, by rw [hn.state]; decide, hn.isThread, h.empty_of_cleared hunused hn.infants, fun t ht => ?_,
      fun p i t hp => ?_, fun p i hplace => ?_⟩
    · by_cases hts : t = s
      · subst hts; rw [hn.caller]; exact ⟨rfl, rfl, rfl, rfl⟩
      · rw [hn.others t ht hts]; exact ⟨rfl, rfl, rfl, rfl⟩
    · by_cases hps : p = s
      · subst hps
        rw [hn.caller]
        by_cases hi : i = threadIdx (m.proc p).infantThreads
        · subst hi; simp [hfree, eq_comm]
        · simp [hi, Ne.symm hi]
      · rw [hn.others p hp hps]; simp [Ne.symm hps]
    · cases hplace; exact ⟨hlive, hn.parent⟩
  refine h.entered he hg (hgn.trans (h.own s hlive hthread)) fun t ht hm => ?_
  have hts : t ≠ s := by rintro rfl; rw [hmades] at hm; cases hm
  refine ⟨by rw [← hmade t ht hts]; exact hm, fun i hplace => hts ?_⟩
  cases hplace
  rfl

/-! ## Calls that end a process -/

/-- A process without entries ends: the threads of other processes keep their parents. -/
theorem TableInv.threadExit {status : Int} (hrun : (m.proc s).state = .runnable)
    (hempty : ∀ i, (m.proc s).infantThreads i = none) :
    Ensures (threadExit m s status) fun m' => TableInv m' g made := by
  refine threadExit_proc.mono fun m' ⟨_, hp⟩ => ?_
  have hunused : ∀ t, (m'.proc t).state ≠ .unused ↔ (m.proc t).state ≠ .unused := by
    intro t
    rw [hp, Proc.afterExit]
    by_cases ht : t = s
    · subst ht; simp [hrun]
    · simp only [if_neg ht]
  have hlive : ∀ t, (m'.proc t).state.Live → t ≠ s ∧ (m.proc t).state.Live := by
    intro t hl
    rw [hp, Proc.afterExit] at hl
    by_cases ht : t = s
    · subst ht
      simp only [if_true] at hl
      exact absurd hl ProcState.not_live_zombie
    · simp only [if_neg ht] at hl
      exact ⟨ht, hl⟩
  have htable : ∀ t, (m'.proc t).infantThreads = (m.proc t).infantThreads ∧
      (m'.proc t).isThread = (m.proc t).isThread ∧ (m'.proc t).pid = (m.proc t).pid := by
    intro t
    rw [hp]
    exact ⟨rfl, rfl, rfl⟩
  refine ⟨fun p i t hpu hi => ?_, fun p i i' t hpu hi hi' => ?_, fun p hpu hm i => ?_, fun t hl ht => ?_,
    fun p hpl i => ?_, fun p hpl ht => ?_⟩
  · rw [hunused] at hpu ⊢
    rw [(htable p).1] at hi
    obtain ⟨he, hth, hpar⟩ := h.entries p i t hpu hi
    have hps : p ≠ s := by rintro rfl; rw [hempty] at hi; cases hi
    refine ⟨he, by rw [(htable t).2.1]; exact hth, ?_⟩
    rw [hp, Proc.afterExit, hpar]
    exact if_neg fun he => hps (Option.some.inj he)
  · rw [hunused] at hpu
    rw [(htable p).1] at hi hi'
    exact h.once p i i' t hpu hi hi'
  · rw [hunused] at hpu
    rw [(htable p).1]
    exact h.fresh p hpu hm i
  · obtain ⟨-, hl⟩ := hlive t hl
    rw [(htable t).2.1] at ht
    obtain ⟨p, i, hpu, hpid, hi⟩ := h.placed t hl ht
    exact ⟨p, i, (hunused p).mpr hpu, by rw [(htable p).2.2]; exact hpid, by rw [(htable p).1]; exact hi⟩
  · rw [(htable p).1]
    by_cases hps : p = s
    · subst hps; exact hempty i
    · refine h.dead p (fun hl => hpl ?_) i
      rw [hp, Proc.afterExit, if_neg hps]; exact hl
  · obtain ⟨-, hpl⟩ := hlive p hpl
    rw [(htable p).2.1] at ht
    rw [(htable p).2.2]
    exact h.own p hpl ht

/-! ## `join_thread` -/

/-- The entry of a thread that has ended is cleared. -/
theorem TableInv.cleared {p : Slot} {i : Fin MAX_THREADS}
    (ht : (m.proc p).infantThreads i = some t) (hz : (m.proc t).state = .zombie) :
    TableInv (clearInfant m p i) g made := by
  have hsame : ∀ q, ((clearInfant m p i).proc q).state = (m.proc q).state ∧
      ((clearInfant m p i).proc q).isThread = (m.proc q).isThread ∧
      ((clearInfant m p i).proc q).parent = (m.proc q).parent ∧ ((clearInfant m p i).proc q).pid = (m.proc q).pid := by
    intro q
    by_cases hq : q = p
    · subst hq; simp [clearInfant, Machine.setProc]
    · simp [clearInfant, Machine.setProc, Function.update_of_ne hq]
  have htable : ∀ q j u, ((clearInfant m p i).proc q).infantThreads j = some u ↔
      (m.proc q).infantThreads j = some u ∧ ¬ (q = p ∧ j = i) := by
    intro q j u
    by_cases hq : q = p
    · subst hq
      simp only [clearInfant, Machine.setProc, Function.update_self]
      by_cases hj : j = i
      · subst hj; simp
      · simp [hj]
    · simp [clearInfant, Machine.setProc, hq]
  have hnone : ∀ q j, (m.proc q).infantThreads j = none → ((clearInfant m p i).proc q).infantThreads j = none := by
    intro q j hj
    cases hc : ((clearInfant m p i).proc q).infantThreads j with
    | none => rfl
    | some u =>
        have := ((htable q j u).mp hc).1
        rw [hj] at this
        cases this
  refine ⟨fun q j u hq hj => ?_, fun q j j' u hq hj hj' => ?_, fun q hq hm j => ?_, fun u hl hu => ?_, fun q hq j => ?_,
    fun q hq hu => ?_⟩
  · rw [(hsame q).1] at hq
    obtain ⟨h₁, h₂, h₃, -⟩ := hsame u
    rw [h₁, h₂, h₃]
    exact h.entries q j u hq ((htable q j u).mp hj).1
  · rw [(hsame q).1] at hq
    exact h.once q j j' u hq ((htable q j u).mp hj).1 ((htable q j' u).mp hj').1
  · rw [(hsame q).1] at hq
    exact hnone q j (h.fresh q hq hm j)
  · rw [(hsame u).1] at hl
    rw [(hsame u).2.1] at hu
    obtain ⟨q, j, hq, hpid, hj⟩ := h.placed u hl hu
    refine ⟨q, j, by rwa [(hsame q).1], by rw [(hsame q).2.2.2]; exact hpid, (htable q j u).mpr ⟨hj, ?_⟩⟩
    rintro ⟨rfl, rfl⟩
    -- the thread that was there is not live
    obtain rfl := Option.some.inj (ht.symm.trans hj)
    rw [hz] at hl
    exact ProcState.not_live_zombie hl
  · rw [(hsame q).1] at hq
    exact hnone q j (h.dead q hq j)
  · rw [(hsame q).1] at hq
    rw [(hsame q).2.1] at hu
    rw [(hsame q).2.2.2]
    exact h.own q hq hu

/-- The caller goes to sleep or wakes up. -/
theorem TableInv.setState (hs : (m.proc s).state.Live) {st : ProcState} (hst : st.Live) :
    TableInv (m.setProc s { m.proc s with state := st }) g made := by
  refine h.congr fun t => ?_
  by_cases ht : t = s
  · subst ht
    simp only [Machine.setProc, Function.update_self]
    exact ⟨⟨fun he => absurd he hst.ne_unused, fun he => absurd he hs.ne_unused⟩, ⟨fun _ => hs, fun _ => hst⟩, rfl, rfl,
      rfl, rfl⟩
  · simp only [Machine.setProc, Function.update_of_ne ht]
    exact ⟨Iff.rfl, Iff.rfl, rfl, rfl, rfl, rfl⟩

end

theorem joinFind_some {threadId statusAddr : Nat} (h : joinFind m s threadId statusAddr = .ok (some j)) :
    (m.proc j.leader).infantThreads j.idx = some j.child ∧ joinLeader m s = .ok j.leader ∧
      (m.proc j.child).pid = threadId ∧ j.threadId = threadId := by
  simp only [joinFind, bind, Except.bind] at h
  split at h
  · cases h
  · rename_i hleader
    obtain ⟨i, -, hi⟩ := List.exists_of_findSome?_eq_some (Except.ok.inj h)
    split at hi
    · cases hi
    · rename_i child hchild
      split at hi
      · rename_i hpid
        cases hi
        exact ⟨hchild, hleader, hpid, rfl⟩
      · cases hi

/-- What a round leaves: the entry is cleared, or nothing has changed. -/
theorem joinRound_some {α : Type} {r : Int} {mem mem' : α} {copyout : PageTable → List UInt8 → Bool × α}
    (h : joinRound m mem j copyout = .ok (some (r, m', mem'))) :
    r = -1 ∧ m' = m ∨ (m.proc j.child).state = .zombie ∧ r = j.threadId ∧ m' = clearInfant m j.leader j.idx := by
  unfold joinRound at h
  split at h
  · rename_i hz
    split at h
    · cases h; exact .inr ⟨hz, rfl, rfl⟩
    · split at h
      · cases h
      · split at h
        · cases h; exact .inr ⟨hz, rfl, rfl⟩
        · cases h; exact .inl ⟨rfl, rfl⟩
  · split at h
    · cases h; exact .inl ⟨rfl, rfl⟩
    · cases h

/-! ## Runs -/

theorem clearInfant_state (p t : Slot) (i : Fin MAX_THREADS) :
    ((clearInfant m p i).proc t).state = (m.proc t).state := by
  by_cases ht : t = p
  · subst ht; simp [clearInfant, Machine.setProc]
  · simp [clearInfant, Machine.setProc, Function.update_of_ne ht]

section

variable (h : TableInv c.machine c.group c.made)
include h

theorem TableInv.round {c' : Crew} (hlive : (c.machine.proc s).state.Live)
    (hj : (c.machine.proc j.child).state = .zombie →
      (c.machine.proc j.leader).infantThreads j.idx = some j.child)
    (hr : c.round s j = some c') : TableInv c'.machine c'.group c'.made := by
  unfold Crew.round at hr
  split at hr
  · cases hr
  · rename_i r m _ hm
    cases hr
    rcases joinRound_some hm with ⟨-, rfl⟩ | ⟨hz, -, rfl⟩
    · exact h.setState hlive ProcState.live_runnable
    · exact (h.cleared (hj hz) hz).setState (by rw [clearInfant_state]; exact hlive) ProcState.live_runnable
  · cases hr; exact h.setState hlive (by decide)

theorem tableInv_fork :
    Ensures (fork c.machine s) fun (_, m') =>
      TableInv m' (c.regroup m' (.fork s)) (c.remade m' (.fork s)) := by
  refine fork_result.mono fun (_, m') hr => ?_
  simp only [Family.regroup, Crew.remade]
  rcases hr with ⟨-, hr⟩ | ⟨-, np, hn⟩
  · cases hnp : unusedSlot c.machine with
    | none => exact h.notMade hr fun _ _ => ⟨rfl, rfl⟩
    | some np =>
        exact h.notMade hr fun t ht => ⟨Function.update_of_ne (hr.ne hnp ht) .., Function.update_of_ne (hr.ne hnp ht) ..⟩
  · rw [hn.slot]
    exact h.fork hn (fun t ht => Function.update_of_ne ht ..) (Function.update_self ..)
      fun t ht => Function.update_of_ne ht ..

theorem tableInv_createThread
    (hrun : (c.machine.proc s).state = .runnable) (hthread : (c.machine.proc s).isThread = false) :
    Ensures (createThread c.machine s) fun (_, m') =>
      TableInv m' (c.regroup m' (.createThread s)) (c.remade m' (.createThread s)) := by
  refine (createThread_result hrun hthread).mono fun (_, m') hr => ?_
  simp only [Family.regroup, Crew.remade]
  rcases hr with ⟨-, hr⟩ | ⟨np, hn⟩
  · cases hnp : unusedSlot c.machine with
    | none => exact h.notMade hr fun _ _ => ⟨rfl, rfl⟩
    | some np =>
        have hunused : (m'.proc np).state = .unused := by
          by_contra hu
          exact hr.ne hnp hu rfl
        simp only [Option.elim_some, if_pos hunused]
        exact h.notMade hr fun t ht => ⟨Function.update_of_ne (hr.ne hnp ht) .., rfl⟩
  · have hused : (m'.proc np).state ≠ .unused := by rw [hn.state]; decide
    rw [hn.slot]
    simp only [Option.elim_some, if_neg hused]
    exact h.createThread hrun hthread hn (fun t ht => Function.update_of_ne ht ..) (Function.update_self ..)
      (fun t htn hts => by rw [Function.update_of_ne hts, Function.update_of_ne htn]) (Function.update_self ..)

theorem procCall_tableInv {a : ProcAct} (hrun : (c.machine.proc a.caller).state = .runnable)
    (hexit : ¬ exitsThreads c.machine a = true) (hj : JoinsFirst c (.call a)) :
    Ensures (procCall c.machine a) fun m' => TableInv m' (c.regroup m' a) (c.remade m' a) := by
  cases a with
  | fork s => exact (tableInv_fork h).bind fun _ h' => .ok h'
  | createThread s => exact (tableInv_createThread h hrun hj).bind fun _ h' => .ok h'
  | growproc s n => exact growproc_touches.bind fun _ ht => .ok (h.congr fun t => (ht.alike t).sameEntry)
  | exec s file argv => exact exec_alike.bind fun _ ht => .ok (h.congr fun t => (ht t).sameEntry)
  | exit s status =>
      simp only [procCall, exit, if_neg (show ¬ (c.machine.proc s).isThread = true from hexit)]
      exact h.threadExit hrun hj
  | threadExit s status => exact h.threadExit hrun hj
  | wait s addr => exact (h.wait hj).bind fun _ h' => .ok h'

theorem crewStep_tableInv {c' : Crew} {a : CrewAct} (hj : JoinsFirst c a)
    (hs : crewStep c a = some c') : TableInv c'.machine c'.group c'.made := by
  cases a with
  | call a =>
      simp only [crewStep] at hs
      split at hs
      · cases hs
      · rename_i hexit
        obtain ⟨f, hf, rfl⟩ := Option.map_eq_some_iff.mp hs
        obtain ⟨m', hm, rfl⟩ := Option.map_eq_some_iff.mp hf
        obtain ⟨hrun, hc⟩ := procStep_eq_some.mp hm
        exact procCall_tableInv h hrun hexit hj m' hc
  | joinThread s threadId statusAddr =>
      simp only [crewStep] at hs
      split at hs
      · rename_i hrun
        split at hs
        · cases hs
        · cases hs; exact h
        · rename_i j hfind
          exact h.round (hrun ▸ ProcState.live_runnable) (fun _ => (joinFind_some hfind).1) hs
      · cases hs
  | wakeup s =>
      simp only [crewStep] at hs
      split at hs
      · rename_i hsleep
        obtain ⟨j, hjoin, hr⟩ := Option.bind_eq_some_iff.mp hs
        exact h.round (by rw [hsleep]; decide) (hj j hjoin) hr
      · cases hs

end

theorem FirstMade.tableInv (h : FirstMade m) :
    TableInv (Crew.start m).machine (Crew.start m).group (Crew.start m).made := by
  have hempty : ∀ p i, (m.proc p).infantThreads i = none := by
    intro p i
    by_cases hp : p = m.initproc
    · subst hp; exact h.infants i
    · rw [h.others p hp]; rfl
  refine ⟨fun p i t _ hi => ?_, fun p i i' t _ hi _ => ?_, fun p _ _ i => hempty p i, fun t hl ht => ?_,
    fun p _ i => hempty p i, fun p _ _ => rfl⟩
  · rw [show (Crew.start m).machine = m from rfl, hempty] at hi; cases hi
  · rw [show (Crew.start m).machine = m from rfl, hempty] at hi; cases hi
  · rw [show (Crew.start m).machine = m from rfl] at hl ht
    by_cases hts : t = m.initproc
    · subst hts; rw [h.isThread] at ht; cases ht
    · rw [h.others t hts] at hl; exact absurd hl ProcState.not_live_unused

end Xv6Net.Procs
