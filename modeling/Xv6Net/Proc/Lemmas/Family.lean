import Xv6Net.Proc.Family
import Xv6Net.Proc.Lemmas.Sharing

/-!
# The parent of a thread is in its group

As long as `KeepsApart` holds, the parent of a live thread is a live process of the same group, and the thread tables
of live processes name threads of the same group, or slots that are not in use.
-/

namespace Xv6Net.Procs

open Kernel Vm Lib

variable {m m' : Machine} {g g' : Slot → Nat} {s np : Slot} {f : Family} {status : Int} {t : Slot}

structure FamilyInv (m : Machine) (g : Slot → Nat) : Prop where
  thread : ∀ t, (m.proc t).state.Live → (m.proc t).isThread = true →
    ∃ l, (m.proc t).parent = some l ∧ (m.proc l).state.Live ∧ (m.proc l).isThread = false ∧ g l = g t
  table : ∀ q u, (m.proc q).state.Live → u ∈ m.infants q → (m.proc u).state ≠ .unused →
    (m.proc u).isThread = true ∧ g u = g q
  cwd : ∀ t, ¬ (m.proc t).state.Live → (m.proc t).cwd = false

theorem ProcState.live_runnable : ProcState.runnable.Live := by decide

theorem ProcState.not_live_unused : ¬ ProcState.unused.Live := by decide

theorem ProcState.not_live_zombie : ¬ ProcState.zombie.Live := by decide

theorem ProcState.Live.ne_unused {st : ProcState} (h : st.Live) : st ≠ .unused := h.1

/-- `exec` changes the page table and the size of its caller. -/
theorem exec_alike {file : Option Elf} {argv : List Nat} :
    Ensures (exec m s file argv) fun (_, m') => ∀ t, (m.proc t).Alike (m'.proc t) := by
  unfold exec
  split
  · exact .ok fun _ => rfl
  · split
    · exact .ok fun _ => rfl
    · split
      · refine Ensures.bind_any fun (r, k₁) => ?_
        cases r with
        | none => exact .ok fun _ => rfl
        | some pt =>
            refine Ensures.bind_any fun (b, sz, k₂, pt₂) => ?_
            cases b with
            | false => exact Ensures.bind_any fun k₃ => .ok fun _ => rfl
            | true =>
                refine Ensures.bind_any fun k₃ => .ok ?_
                have ht : Touches { m with kmem := k₃ } ({ m with kmem := k₃ }.setProc s { m.proc s with
                    pagetable := some pt₂, sz := sz }) fun _ => True := .setProc trivial rfl
                exact ht.alike
      · exact .error

namespace FamilyInv

/-- A thread reaches only members of its group. -/
theorem isolated (hi : FamilyInv f.machine f.group) : f.Isolated := by
  intro t n r m' hrun hthread hgrow s huse hne
  obtain ⟨l, hl, hlive, -, hg⟩ := hi.thread t (hrun ▸ ProcState.live_runnable) hthread
  have hsame : m'.proc s = f.machine.proc s := by
    refine (growproc_touches _ hgrow).same s ?_
    rintro (rfl | ⟨p, hp, hs⟩)
    · exact hne rfl
    · obtain rfl : l = p := Option.some.inj (hl.symm.trans hp)
      rcases hs with rfl | hs
      · exact hne hg
      · exact hne ((hi.table l s hlive hs huse).2.trans hg)
  rw [hsame]
  exact ⟨rfl, rfl⟩

/-! ## Calls that make no process -/

section

variable (hi : FamilyInv m g)
include hi

/-- Page tables and sizes do not matter. -/
theorem alike (h : ∀ t, (m.proc t).Alike (m'.proc t)) : FamilyInv m' g := by
  have hin : ∀ q, m'.infants q = m.infants q := fun q => by
    rw [Machine.infants, Machine.infants, (h q).infantThreads]
  refine ⟨fun t hl ht => ?_, fun q u hq hu hs => ?_, fun t ht => ?_⟩
  · rw [(h t).state] at hl
    rw [(h t).isThread] at ht
    obtain ⟨l, hp, hlive, hth, hg⟩ := hi.thread t hl ht
    exact ⟨l, by rw [(h t).parent]; exact hp, by rw [(h l).state]; exact hlive, by rw [(h l).isThread]; exact hth, hg⟩
  · rw [(h q).state] at hq
    rw [hin] at hu
    rw [(h u).state] at hs
    rw [(h u).isThread]
    exact hi.table q u hq hu hs
  · rw [(h t).state] at ht
    rw [(h t).cwd]
    exact hi.cwd t ht

theorem reset (h : ∀ t, m'.proc t = m.proc t ∨ ¬ (m.proc t).state.Live ∧ Reset (m.proc t) (m'.proc t))
    (hg : ∀ t, (m'.proc t).state ≠ .unused → g' t = g t) : FamilyInv m' g' := by
  have huse : ∀ {t}, (m'.proc t).state ≠ .unused → m'.proc t = m.proc t := fun {t} ht =>
    (h t).resolve_right fun h' => ht h'.2.state
  have hkeep : ∀ {t}, (m.proc t).state.Live → m'.proc t = m.proc t := fun {t} ht =>
    (h t).resolve_right fun h' => h'.1 ht
  refine ⟨fun t hl ht => ?_, fun q u hq hu hs => ?_, fun t ht => ?_⟩
  · have hgt := hg t hl.ne_unused
    have hst := huse hl.ne_unused
    rw [hst] at hl ht ⊢
    obtain ⟨l, hp, hlive, hth, hgl⟩ := hi.thread t hl ht
    have hl' := hkeep hlive
    refine ⟨l, hp, by rwa [hl'], by rwa [hl'], ?_⟩
    rw [hg l (by rw [hl']; exact hlive.ne_unused), hgt, hgl]
  · have hgq := hg q hq.ne_unused
    have hgu := hg u hs
    have hsq := huse hq.ne_unused
    have hsu := huse hs
    rw [Machine.infants, hsq] at hu
    rw [hsq] at hq
    rw [hsu] at hs ⊢
    rw [hgq, hgu]
    exact hi.table q u hq hu hs
  · rcases h t with h | ⟨hn, hr⟩
    · rw [h] at ht ⊢; exact hi.cwd t ht
    · rw [hr.cwd]; exact hi.cwd t hn

theorem notMade (h : NotMade m m') (hg : ∀ t, (m'.proc t).state ≠ .unused → g' t = g t) : FamilyInv m' g' :=
  hi.reset (fun t => (h.reset t).imp_right fun ⟨hu, h'⟩ => ⟨hu ▸ ProcState.not_live_unused, h'⟩) hg

theorem wait {addr : Nat} : Ensures (wait m s addr) fun (_, m') => FamilyInv m' g := by
  unfold Procs.wait
  split
  · rename_i c hc
    split
    · exact .error
    · split
      · exact .ok hi
      · refine freeproc_proc.bind fun m' ⟨_, hp⟩ => .ok (hi.reset (fun t => ?_) fun _ _ => rfl)
        have hz : (m.proc c).state = .zombie := by
          have := List.find?_some hc
          simp only [decide_eq_true_eq] at this
          exact this.2
        by_cases ht : t = c
        · subst ht
          refine .inr ⟨hz ▸ ProcState.not_live_zombie, ?_⟩
          rw [hp, Function.update_self]
          exact .freed _
        · exact .inl (by rw [hp, Function.update_of_ne ht])
  · split <;> exact .ok hi

theorem exec {file : Option Elf} {argv : List Nat} :
    Ensures (exec m s file argv) fun (_, m') => FamilyInv m' g := exec_alike.mono fun _ h => hi.alike h

end

/-! ## Calls that make a process -/

/-- A table that `allocproc` leaves behind names no slot in use. -/
theorem cleared_unused {caller : Option Slot} {parent : Slot} {b : Bool} (hclean : SlotClean m caller)
    (hn : Made m m' np parent b) {u : Slot} (hu : u ∈ m'.infants np) : u ≠ np ∧ (m.proc u).state = .unused := by
  obtain ⟨j, hj⟩ := mem_infants.mp hu
  rw [hn.infants] at hj
  exact (hclean np hn.slot).2 j u hj

theorem fork (hi : FamilyInv m g) (hclean : SlotClean m none) (hn : Forked m m' s np)
    (hg : ∀ t, t ≠ np → g' t = g t) : FamilyInv m' g' := by
  have hnp := unusedSlot_state hn.slot
  have hne : ∀ {t}, (m.proc t).state ≠ .unused → t ≠ np := by
    rintro t ht rfl
    exact ht hnp
  refine ⟨fun t hl ht => ?_, fun q u hq hu hs => ?_, fun t ht => ?_⟩
  · have htn : t ≠ np := by
      rintro rfl
      rw [hn.isThread] at ht
      cases ht
    have hst := hn.others t htn
    rw [hst] at hl ht ⊢
    obtain ⟨l, hp, hlive, hth, hgl⟩ := hi.thread t hl ht
    have hln := hne hlive.ne_unused
    have hsl := hn.others l hln
    exact ⟨l, hp, by rwa [hsl], by rwa [hsl], by rw [hg l hln, hg t htn, hgl]⟩
  · by_cases hqn : q = np
    · subst hqn
      obtain ⟨hun, huu⟩ := cleared_unused hclean hn.toMade hu
      rw [hn.others u hun] at hs
      exact absurd huu hs
    · have hsq := hn.others q hqn
      rw [Machine.infants, hsq] at hu
      rw [hsq] at hq
      have hun : u ≠ np := by
        rintro rfl
        exact (hclean u hn.slot).1 q hq (Option.some_ne_none q).symm hu
      have hsu := hn.others u hun
      rw [hsu] at hs ⊢
      rw [hg u hun, hg q hqn]
      exact hi.table q u hq hu hs
  · have htn : t ≠ np := by
      rintro rfl
      rw [hn.state] at ht
      exact ht ProcState.live_runnable
    rw [hn.others t htn] at ht ⊢
    exact hi.cwd t ht

theorem createThread (hi : FamilyInv m g) (hrun : (m.proc s).state = .runnable)
    (hthread : (m.proc s).isThread = false) (hclean : SlotClean m (some s)) (hn : ThreadMade m m' s np)
    (hg : ∀ t, t ≠ np → g' t = g t) (hgn : g' np = g s) : FamilyInv m' g' := by
  have hnp := unusedSlot_state hn.slot
  have hne : ∀ {t}, (m.proc t).state ≠ .unused → t ≠ np := by
    rintro t ht rfl
    exact ht hnp
  have hsn : s ≠ np := hne (by rw [hrun]; decide)
  -- apart from the new thread, only the table of the caller is another one
  have hstate : ∀ t, t ≠ np → (m'.proc t).state = (m.proc t).state ∧ (m'.proc t).isThread = (m.proc t).isThread ∧
      (m'.proc t).parent = (m.proc t).parent ∧ (m'.proc t).cwd = (m.proc t).cwd := by
    intro t ht
    by_cases hts : t = s
    · subst hts; rw [hn.caller]; exact ⟨rfl, rfl, rfl, rfl⟩
    · rw [hn.others t ht hts]; exact ⟨rfl, rfl, rfl, rfl⟩
  refine ⟨fun t hl ht => ?_, fun q u hq hu hs => ?_, fun t ht => ?_⟩
  · by_cases htn : t = np
    · subst htn
      obtain ⟨h₁, h₂, -, -⟩ := hstate s hsn
      exact ⟨s, hn.parent, by rw [h₁, hrun]; exact ProcState.live_runnable, by rw [h₂, hthread],
        by rw [hg s hsn, hgn]⟩
    · obtain ⟨h₁, h₂, h₃, -⟩ := hstate t htn
      rw [h₁] at hl
      rw [h₂] at ht
      obtain ⟨l, hp, hlive, hth, hgl⟩ := hi.thread t hl ht
      have hln := hne hlive.ne_unused
      obtain ⟨k₁, k₂, -, -⟩ := hstate l hln
      exact ⟨l, by rwa [h₃], by rwa [k₁], by rwa [k₂], by rw [hg l hln, hg t htn, hgl]⟩
  · by_cases hqn : q = np
    · subst hqn
      obtain ⟨hun, huu⟩ := cleared_unused hclean hn.toMade hu
      rw [(hstate u hun).1] at hs
      exact absurd huu hs
    · rw [(hstate q hqn).1] at hq
      by_cases hun : u = np
      · subst hun
        by_cases hqs : q = s
        · subst hqs; exact ⟨hn.isThread, by rw [hgn, hg q hqn]⟩
        · rw [Machine.infants, hn.others q hqn hqs] at hu
          exact absurd hu ((hclean u hn.slot).1 q hq fun h => hqs (Option.some.inj h).symm)
      · have hold : u ∈ m.infants q := by
          by_cases hqs : q = s
          · subst hqs; exact (hn.mem_infants hu).resolve_left hun
          · rwa [Machine.infants, hn.others q hqn hqs] at hu
        obtain ⟨h₁, h₂, -, -⟩ := hstate u hun
        rw [h₁] at hs
        rw [h₂, hg u hun, hg q hqn]
        exact hi.table q u hq hold hs
  · have htn : t ≠ np := by
      rintro rfl
      rw [hn.state] at ht
      exact ht ProcState.live_runnable
    obtain ⟨h₁, -, -, h₄⟩ := hstate t htn
    rw [h₁] at ht
    rw [h₄]
    exact hi.cwd t ht

end FamilyInv

/-! ## Calls that end a process -/

/-- The process `s` has ended, and its children may have a new parent. -/
structure Buried (m m' : Machine) (s : Slot) : Prop where
  state : (m'.proc s).state = .zombie
  cwd : (m'.proc s).cwd = false
  others : ∀ t, t ≠ s → (m'.proc t).state = (m.proc t).state ∧ (m'.proc t).cwd = (m.proc t).cwd
  isThread : ∀ t, (m'.proc t).isThread = (m.proc t).isThread
  infants : ∀ t, m'.infants t = m.infants t
  parent : ∀ t, (m'.proc t).parent = (m.proc t).parent ∨ (m.proc t).parent = some s

theorem Buried.live (hb : Buried m m' s) (h : (m'.proc t).state.Live) : t ≠ s ∧ (m.proc t).state.Live := by
  have hne : t ≠ s := by
    rintro rfl
    rw [hb.state] at h
    exact ProcState.not_live_zombie h
  exact ⟨hne, by rwa [(hb.others t hne).1] at h⟩

theorem Buried.threadless (hb : Buried m m' s) (hs : Threadless m s) (ht : Threadless m t) : Threadless m' t := by
  intro u hl hu
  obtain ⟨-, hl⟩ := hb.live hl
  rw [hb.isThread] at hu
  rw [(hb.parent u).resolve_right (hs u hl hu)]
  exact ht u hl hu

theorem FamilyInv.buried (hi : FamilyInv m g) (hb : Buried m m' s) (huse : (m.proc s).state ≠ .unused)
    (hs : Threadless m s) : FamilyInv m' g := by
  refine ⟨fun t hl ht => ?_, fun q u hq hu hs' => ?_, fun t ht => ?_⟩
  · obtain ⟨-, hl⟩ := hb.live hl
    rw [hb.isThread] at ht
    obtain ⟨l, hp, hlive, hth, hg⟩ := hi.thread t hl ht
    have hne : l ≠ s := by
      rintro rfl
      exact hs t hl ht hp
    exact ⟨l, by rw [(hb.parent t).resolve_right (hs t hl ht), hp], by rwa [(hb.others l hne).1],
      by rwa [hb.isThread], hg⟩
  · obtain ⟨-, hq⟩ := hb.live hq
    rw [hb.infants] at hu
    rw [hb.isThread]
    refine hi.table q u hq hu ?_
    by_cases hus : u = s
    · subst hus; exact huse
    · rwa [(hb.others u hus).1] at hs'
  · by_cases hts : t = s
    · subst hts; exact hb.cwd
    · obtain ⟨h₁, h₂⟩ := hb.others t hts
      rw [h₁] at ht
      rw [h₂]
      exact hi.cwd t ht

/-- A process with a current directory is live. -/
theorem FamilyInv.live_of_cwd (hi : FamilyInv m g) (h : (m.proc s).cwd = true) : (m.proc s).state.Live := by
  by_contra hn
  rw [hi.cwd s hn] at h
  cases h

theorem FamilyInv.threadless_of_thread (hi : FamilyInv m g) (h : (m.proc s).isThread = true) : Threadless m s := by
  intro t hl ht hp
  obtain ⟨l, hl', -, hth, -⟩ := hi.thread t hl ht
  obtain rfl : l = s := Option.some.inj (hl'.symm.trans hp)
  rw [h] at hth
  cases hth

theorem threadExit_buried : Ensures (threadExit m s status) fun m' => (m.proc s).cwd = true ∧ Buried m m' s := by
  refine threadExit_proc.mono fun m' ⟨hcwd, hp⟩ => ⟨hcwd, ?_, ?_, fun t ht => ?_, fun t => ?_, fun t => ?_, fun t => ?_⟩
  · rw [hp]; exact if_pos rfl
  · rw [hp]; exact if_pos rfl
  · rw [hp]; exact ⟨if_neg ht, if_neg ht⟩
  · rw [hp]; rfl
  · rw [Machine.infants, hp]; rfl
  · rw [hp]
    by_cases h : (m.proc t).parent = some s
    · exact .inr h
    · exact .inl (if_neg h)

theorem FamilyInv.threadExit (hi : FamilyInv m g) (hs : Threadless m s) :
    Ensures (threadExit m s status) (FamilyInv · g) :=
  threadExit_buried.mono fun _ ⟨hcwd, hb⟩ => hi.buried hb (hi.live_of_cwd hcwd).ne_unused hs

theorem FamilyInv.exitInfants {l : List Slot} (hi : FamilyInv m g)
    (hl : ∀ u ∈ l, (m.proc u).state ≠ .unused → (m.proc u).isThread = true) :
    Ensures (exitInfants m status l) fun m' => FamilyInv m' g ∧ ∀ t, Threadless m t → Threadless m' t := by
  induction l generalizing m with
  | nil => exact .ok ⟨hi, fun _ h => h⟩
  | cons u l ih =>
      unfold Procs.exitInfants iputCwd
      split
      · rename_i hcwd
        have huse := (hi.live_of_cwd hcwd).ne_unused
        have hless := hi.threadless_of_thread (hl u List.mem_cons_self huse)
        set m₁ := m.setProc u { m.proc u with cwd := false } with hm₁
        have hb : Buried m (m₁.setProc u { m₁.proc u with xstate := status, state := .zombie }) u := by
          refine ⟨?_, ?_, fun t ht => ?_, fun t => ?_, fun t => ?_, fun t => ?_⟩
          · simp [Machine.setProc]
          · simp [hm₁, Machine.setProc]
          · simp [hm₁, Machine.setProc, Function.update_of_ne ht]
          all_goals
            simp only [hm₁, Machine.setProc, Machine.infants]
            by_cases ht : t = u
            · subst ht; simp
            · simp [Function.update_of_ne ht]
        refine (ih (hi.buried hb huse hless) fun v hv hs => ?_).mono
          fun m' h => ⟨h.1, fun t ht => h.2 t (hb.threadless hless ht)⟩
        rw [hb.isThread]
        refine hl v (List.mem_cons_of_mem _ hv) ?_
        by_cases hvu : v = u
        · subst hvu; exact huse
        · rwa [(hb.others v hvu).1] at hs
      · exact .error

theorem FamilyInv.exit (hi : FamilyInv m g) (hrun : (m.proc s).state = .runnable)
    (hs : Threadless m s) : Ensures (exit m s status) (FamilyInv · g) := by
  unfold Procs.exit
  split
  · rename_i hthread
    obtain ⟨l, hp, hlive, -, -⟩ := hi.thread s (hrun ▸ ProcState.live_runnable) hthread
    simp only [hp]
    refine (hi.exitInfants fun u hu huse => (hi.table l u hlive hu huse).1).bind fun m₁ ⟨hi₁, hk⟩ => ?_
    exact hi₁.threadExit (hk s hs)
  · exact hi.threadExit hs

/-! ## Runs -/

/-- The slot for a process that was not made is still unused. -/
theorem NotMade.ne (h : NotMade m m') (hnp : unusedSlot m = some np) (ht : (m'.proc t).state ≠ .unused) : t ≠ np := by
  rintro rfl
  rcases h.reset t with h' | ⟨-, h'⟩
  · rw [h'] at ht; exact ht (unusedSlot_state hnp)
  · exact ht h'.state

section

variable (hi : FamilyInv f.machine f.group)
include hi

theorem familyInv_fork (hclean : SlotClean f.machine none) :
    Ensures (fork f.machine s) fun (_, m') => FamilyInv m' (f.regroup m' (.fork s)) := by
  refine fork_result.mono fun (_, m') h => ?_
  simp only [Family.regroup]
  rcases h with ⟨-, h⟩ | ⟨-, np, hn⟩
  · cases hnp : unusedSlot f.machine with
    | none => exact hi.notMade h fun _ _ => rfl
    | some np => exact hi.notMade h fun t ht => Function.update_of_ne (h.ne hnp ht) ..
  · rw [hn.slot]
    exact hi.fork hclean hn fun t ht => Function.update_of_ne ht ..

theorem familyInv_createThread
    (hrun : (f.machine.proc s).state = .runnable) (hthread : (f.machine.proc s).isThread = false)
    (hclean : SlotClean f.machine (some s)) :
    Ensures (createThread f.machine s) fun (_, m') => FamilyInv m' (f.regroup m' (.createThread s)) := by
  refine (createThread_result hrun hthread).mono fun (_, m') h => ?_
  simp only [Family.regroup]
  rcases h with ⟨-, h⟩ | ⟨np, hn⟩
  · cases hnp : unusedSlot f.machine with
    | none => exact hi.notMade h fun _ _ => rfl
    | some np => exact hi.notMade h fun t ht => Function.update_of_ne (h.ne hnp ht) ..
  · rw [hn.slot]
    exact hi.createThread hrun hthread hclean hn (fun t ht => Function.update_of_ne ht ..) (Function.update_self ..)

theorem procCall_familyInv {a : ProcAct} (hrun : (f.machine.proc a.caller).state = .runnable) (hk : KeepsApart f a) :
    Ensures (procCall f.machine a) fun m' => FamilyInv m' (f.regroup m' a) := by
  cases a with
  | fork s => exact (familyInv_fork hi hk).bind fun _ h => .ok h
  | createThread s => exact (familyInv_createThread hi hrun hk.1 hk.2).bind fun _ h => .ok h
  | growproc s n => exact growproc_touches.bind fun _ h => .ok (hi.alike h.alike)
  | exec s file argv => exact hi.exec.bind fun _ h => .ok h
  | exit s status => exact hi.exit hrun hk
  | threadExit s status => exact hi.threadExit hk
  | wait s addr => exact hi.wait.bind fun _ h => .ok h

theorem familyStep_familyInv {f' : Family} {a : ProcAct} (hk : KeepsApart f a)
    (h : familyStep f a = some f') : FamilyInv f'.machine f'.group := by
  obtain ⟨m', hm, rfl⟩ := Option.map_eq_some_iff.mp h
  obtain ⟨hrun, hc⟩ := procStep_eq_some.mp hm
  exact procCall_familyInv hi hrun hk m' hc

end

theorem FirstMade.familyInv (h : FirstMade m) : FamilyInv (Family.start m).machine (Family.start m).group := by
  have hlive : ∀ {t}, (m.proc t).state ≠ .unused → t = m.initproc := by
    intro t ht
    by_contra hne
    rw [h.others t hne] at ht
    exact ht rfl
  refine ⟨fun t hl ht => ?_, fun q u hq hu _ => ?_, fun t ht => ?_⟩
  · obtain rfl := hlive hl.ne_unused
    rw [Family.start, h.isThread] at ht
    cases ht
  · obtain rfl := hlive hq.ne_unused
    obtain ⟨j, hj⟩ := mem_infants.mp hu
    rw [Family.start, h.infants] at hj
    cases hj
  · by_cases hts : t = m.initproc
    · subst hts
      rw [Family.start, h.state] at ht
      exact absurd ProcState.live_runnable ht
    · simp only [Family.start, h.others t hts]; rfl

end Xv6Net.Procs
