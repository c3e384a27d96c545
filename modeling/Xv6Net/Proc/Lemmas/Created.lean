import Xv6Net.Proc.Lemmas.Frame
import Xv6Net.Vm.Lemmas.Covers

/-!
# What `userinit`, `fork` and `create_thread` return
-/

namespace Xv6Net.Procs

open Kernel Vm Lib

variable {m m' : Machine} {s np : Slot}

/-- What `freeproc` leaves of a slot, after `allocproc` may have cleared entries of its thread table. -/
structure Reset (p p' : Proc) : Prop where
  state : p'.state = .unused
  cwd : p'.cwd = p.cwd
  isThread : p'.isThread = p.isThread
  infants : ∀ j t, p'.infantThreads j = some t → p.infantThreads j = some t

theorem clearInfants_some {infants : Fin MAX_THREADS → Option Slot} {j : Fin MAX_THREADS} {t : Slot}
    (h : clearInfants infants j = some t) : infants j = some t := by
  unfold clearInfants at h
  split at h
  · cases h
  · exact h

theorem Reset.freed (p : Proc) : Reset p p.freed := ⟨rfl, rfl, rfl, fun _ _ h => h⟩

/-- No process was made; an unused slot may have been reset. -/
structure NotMade (m m' : Machine) : Prop where
  initproc : m'.initproc = m.initproc
  reset : ∀ t, m'.proc t = m.proc t ∨ (m.proc t).state = .unused ∧ Reset (m.proc t) (m'.proc t)

/-- The process `np` was made. Its thread table is what `allocproc` leaves of the table of the slot. -/
structure Made (m m' : Machine) (np parent : Slot) (thread : Bool) : Prop where
  slot : unusedSlot m = some np
  initproc : m'.initproc = m.initproc
  state : (m'.proc np).state = .runnable
  cwd : (m'.proc np).cwd = true
  parent : (m'.proc np).parent = some parent
  isThread : (m'.proc np).isThread = thread
  infants : (m'.proc np).infantThreads = clearInfants (m.proc np).infantThreads

/-- A child of the size of the caller: the other processes are the same. -/
structure Forked (m m' : Machine) (s np : Slot) : Prop extends Made m m' np s false where
  others : ∀ t, t ≠ np → m'.proc t = m.proc t
  memory : ∃ pt, (m'.proc np).pagetable = some pt ∧ pt.Covers (m'.proc np).sz

/-- A thread: it is entered in the table of the caller, and has the memory of the caller. -/
structure ThreadMade (m m' : Machine) (s np : Slot) : Prop extends Made m m' np s true where
  others : ∀ t, t ≠ np → t ≠ s → m'.proc t = m.proc t
  caller : m'.proc s = { m.proc s with
    infantThreads := Function.update (m.proc s).infantThreads (threadIdx (m.proc s).infantThreads) (some np) }
  sz : (m'.proc np).sz = (m.proc s).sz
  leaf : ∀ i, i < USER_PAGES →
    (m'.proc np).leaf i = if i < pagesBelow 0 (m.proc s).sz then (m.proc s).leaf i else none

theorem ThreadMade.mem_infants {t : Slot} (h : ThreadMade m m' s np) (ht : t ∈ m'.infants s) :
    t = np ∨ t ∈ m.infants s := by
  obtain ⟨j, hj⟩ := Procs.mem_infants.mp ht
  rw [h.caller] at hj
  by_cases hidx : j = threadIdx (m.proc s).infantThreads
  · subst hidx
    simp only [Function.update_self, Option.some.injEq] at hj
    exact .inl hj.symm
  · refine .inr (Procs.mem_infants.mpr ⟨j, ?_⟩)
    simpa only [Function.update_of_ne hidx] using hj

theorem NotAllocated.notMade (h : NotAllocated m m') : NotMade m m' := by
  refine ⟨h.initproc, fun t => (h.reset t).imp_right fun ⟨hu, hp⟩ => ⟨hu, ?_⟩⟩
  rw [hp]
  exact .freed _

/-- The first process is the only one, and maps at most the page of its program. -/
structure FirstMade (m : Machine) : Prop where
  others : ∀ t, t ≠ m.initproc → m.proc t = Proc.zero
  state : (m.proc m.initproc).state = .runnable
  isThread : (m.proc m.initproc).isThread = false
  infants : ∀ j, (m.proc m.initproc).infantThreads j = none
  sz : (m.proc m.initproc).sz = PGSIZE
  first : ∀ pt, (m.proc m.initproc).pagetable = some pt → ∀ i, i < USER_PAGES → i ∈ pt.leaves → i = 0

theorem userinit_result {k : Kmem} {trampoline initcode : Nat} :
    Ensures (userinit (.boot k trampoline) initcode) FirstMade := by
  unfold userinit
  refine allocproc_result.bind fun (r, m₁) ⟨hsome, _⟩ => ?_
  cases r with
  | none => exact .error
  | some s =>
      have ha := hsome s rfl
      obtain ⟨tf, pt, hself, -, hhigh⟩ := ha.self
      have hpt : (m₁.proc s).pagetable = some pt := by rw [hself]
      simp only [hpt]
      refine uvmfirst_mem.bind fun (k₂, pt₂) hmem => .ok ⟨fun t ht => ?_, ?_, ?_, fun j => ?_, ?_, ?_⟩
      · have hts : t ≠ s := ht
        simp only [Machine.setProc, Function.update_of_ne hts]
        exact ha.others t hts
      all_goals simp only [Machine.setProc, Function.update_self]
      · rw [hself]; rfl
      · rw [hself]; simp [clearInfants, Machine.boot, Proc.zero]
      · intro pt' hpt' i hi hin
        obtain rfl := Option.some.inj hpt'
        exact (hmem i hin).resolve_right (hhigh i hi)

/-- A slot that was taken and is given back because the memory could not be set up. -/
theorem Allocated.freeproc {m₁ m₂ : Machine} {pt : PageTable} (ha : Allocated m m₁ np)
    (hin : m₂.initproc = m₁.initproc)
    (hp : m₂.proc = Function.update m₁.proc np { m₁.proc np with pagetable := some pt }) :
    Ensures (freeproc m₂ np) (NotMade m) := by
  refine freeproc_proc.mono fun m' ⟨hi, hf⟩ => ⟨hi.trans (hin.trans ha.initproc), fun t => ?_⟩
  by_cases ht : t = np
  · subst ht
    obtain ⟨tf, pt', hself, -⟩ := ha.self
    refine .inr ⟨unusedSlot_state ha.slot, ?_⟩
    rw [hf, Function.update_self, hp, Function.update_self, hself]
    exact ⟨rfl, rfl, rfl, fun _ _ h => clearInfants_some h⟩
  · exact .inl (by rw [hf, Function.update_of_ne ht, hp, Function.update_of_ne ht, ha.others t ht])

theorem fork_result : Ensures (fork m s) fun (r, m') => r = -1 ∧ NotMade m m' ∨ 0 ≤ r ∧ ∃ np, Forked m m' s np := by
  unfold fork
  refine allocproc_result.bind fun (r, m₁) ⟨hsome, hnone⟩ => ?_
  cases r with
  | none => exact .ok (.inl ⟨rfl, (hnone rfl).notMade⟩)
  | some np =>
      have ha := hsome np rfl
      obtain ⟨tf, pt, hself, -, hhigh⟩ := ha.self
      have hpt : (m₁.proc np).pagetable = some pt := by rw [hself]
      dsimp only
      split
      · exact .error
      · refine (onTable_spec (Q := fun _ b pt' => b = true → pt'.Covers (m₁.proc s).sz) fun pt' hpt' => ?_).bind ?_
        · obtain rfl : pt = pt' := Option.some.inj (hpt.symm.trans hpt')
          exact uvmcopy_covers hhigh
        rintro ⟨b, m₂⟩ ⟨hin, -, pt₂, -, hcov, hp⟩
        cases b with
        | false => exact (ha.freeproc hin hp).bind fun m' h => .ok (.inl ⟨rfl, h⟩)
        | true =>
            dsimp only
            split
            · have hnp : (m₂.proc np).infantThreads = clearInfants (m.proc np).infantThreads := by
                rw [hp, Function.update_self, hself]
              have hsz : (m₂.proc s).sz = (m₁.proc s).sz := by
                rw [hp]
                by_cases hs : s = np
                · subst hs; rw [Function.update_self]
                · rw [Function.update_of_ne hs]
              refine .ok (.inr ⟨Int.natCast_nonneg _, np, ⟨ha.slot, hin.trans ha.initproc, ?_, ?_, ?_, ?_, ?_⟩,
                fun t ht => ?_, ?_⟩)
              any_goals simp only [Machine.setProc, Function.update_self]
              · exact hnp
              · rw [Function.update_of_ne ht, hp, Function.update_of_ne ht, ha.others t ht]
              · exact ⟨pt₂, by rw [hp, Function.update_self], by rw [hsz]; exact hcov rfl⟩
            · exact .error

theorem createThread_result (hrun : (m.proc s).state = .runnable) (hthread : (m.proc s).isThread = false) :
    Ensures (createThread m s) fun (r, m') => r = -1 ∧ NotMade m m' ∨ ∃ np, ThreadMade m m' s np := by
  unfold createThread
  refine allocproc_result.bind fun (r, m₁) ⟨hsome, hnone⟩ => ?_
  cases r with
  | none => exact .ok (.inl ⟨rfl, (hnone rfl).notMade⟩)
  | some np =>
      have ha := hsome np rfl
      have hne := ha.ne hrun
      obtain ⟨tf, pt, hself, -, hhigh⟩ := ha.self
      have hs₁ : m₁.proc s = m.proc s := ha.others s hne
      dsimp only
      split
      · exact .error
      · rename_i old hold
        refine (onTable_spec (Q := fun pt b pt' => b = true → ∀ j, pt'.leaves.lookup j =
          if j < pagesBelow 0 (m₁.proc s).sz then old.leaves.lookup j else pt.leaves.lookup j)
          fun _ _ => uvmshare_leaves).bind ?_
        rintro ⟨b, m₂⟩ ⟨hin, pt', pt₂, hpt', hshare, hp⟩
        cases b with
        | false => exact (ha.freeproc hin hp).bind fun m' h => .ok (.inl ⟨rfl, h⟩)
        | true =>
            obtain rfl : pt = pt' := by rw [hself] at hpt'; exact Option.some.inj hpt'
            have hs₂ : m₂.proc s = m.proc s := by rw [hp, Function.update_of_ne hne, hs₁]
            dsimp only
            split
            · simp only [threadParent, hs₂, hthread, Bool.false_eq_true, if_false]
              refine .ok (.inr ⟨np, ⟨ha.slot, hin.trans ha.initproc, ?_, ?_, ?_, ?_, ?_⟩, fun t ht ht' => ?_,
                ?_, ?_, fun i hi => ?_⟩)
              any_goals simp only [setInfant, Machine.setProc, Function.update_self, Function.update_of_ne hne,
                Function.update_of_ne hne.symm]
              · rw [hp, Function.update_self, hself]
              · rw [Function.update_of_ne ht', Function.update_of_ne ht, hp, Function.update_of_ne ht, ha.others t ht]
              · rw [hs₂]
              · rw [hp, Function.update_self]
                have hnone : pt.leaves.lookup i = none := AList.lookup_eq_none.mpr (hhigh i hi)
                simp only [Proc.leaf, Option.bind_some, hshare rfl i, hs₁, hnone]
                rw [← hs₁, hold, Option.bind_some]
            · exact .error

/-- How `fork` and `create_thread` end, for any caller: no process was made, or the slot of the new one runs and no
other process starts or stops. -/
def Spawned (m m' : Machine) (r : Int) : Prop :=
  r = -1 ∧ NotMade m m' ∨ 0 ≤ r ∧ ∃ np, unusedSlot m = some np ∧ (m'.proc np).state = .runnable ∧
    ∀ t, t ≠ np → (m'.proc t).state = (m.proc t).state

theorem fork_spawned : Ensures (fork m s) fun (r, m') => Spawned m m' r := by
  refine fork_result.mono fun (r, m') h => h.imp_right ?_
  rintro ⟨hr, np, hn⟩
  exact ⟨hr, np, hn.slot, hn.state, fun t ht => by rw [hn.others t ht]⟩

theorem setInfant_state (p : Slot) (i : Fin MAX_THREADS) (t : Slot) :
    ((setInfant m p i np).proc t).state = (m.proc t).state := by
  by_cases ht : t = p
  · subst ht; simp [setInfant, Machine.setProc]
  · simp [setInfant, Machine.setProc, ht]

theorem createThread_spawned : Ensures (createThread m s) fun (r, m') => Spawned m m' r := by
  unfold createThread
  refine allocproc_result.bind fun (r, m₁) ⟨hsome, hnone⟩ => ?_
  cases r with
  | none => exact .ok (.inl ⟨rfl, (hnone rfl).notMade⟩)
  | some np =>
      have ha := hsome np rfl
      dsimp only
      split
      · exact .error
      · refine (onTable_spec (Q := fun _ _ _ => True) fun _ _ _ _ => trivial).bind ?_
        rintro ⟨b, m₂⟩ ⟨hin, -, pt₂, -, -, hp⟩
        cases b with
        | false => exact (ha.freeproc hin hp).bind fun m' h => .ok (.inl ⟨rfl, h⟩)
        | true =>
            dsimp only
            split
            · refine Ensures.bind_any fun parent => ?_
              cases parent with
              | none => exact .error
              | some p =>
                  refine .ok (.inr ⟨Int.natCast_nonneg _, np, ha.slot, ?_, fun t ht => ?_⟩)
                  · simp [setInfant_state, Machine.setProc]
                  · simp only [setInfant_state, Machine.setProc, Function.update_of_ne ht, hp, ha.others t ht]
            · exact .error

end Xv6Net.Procs
