import Xv6Net.Proc.Lemmas.Slots
import Xv6Net.Proc.Sharing

/-!
# What a growing process leaves alone

`Touches m m' L`: only processes of `L` have another page table or another size, and no process differs in anything
else.
-/

namespace Xv6Net.Procs

open Kernel Vm Lib

variable {m m' m'' : Machine} {s t : Slot} {L L' : Slot → Prop} {newsz oldsz : Nat}

/-- The same process up to its page table and its size. -/
def Proc.Alike (p p' : Proc) : Prop := { p' with pagetable := none, sz := 0 } = { p with pagetable := none, sz := 0 }

structure Touches (m m' : Machine) (L : Slot → Prop) : Prop where
  alike : ∀ t, (m.proc t).Alike (m'.proc t)
  same : ∀ t, ¬ L t → m'.proc t = m.proc t

namespace Proc.Alike

variable {p p' : Proc}

theorem state (h : p.Alike p') : p'.state = p.state := (congrArg Proc.state h :)

theorem isThread (h : p.Alike p') : p'.isThread = p.isThread := (congrArg Proc.isThread h :)

theorem parent (h : p.Alike p') : p'.parent = p.parent := (congrArg Proc.parent h :)

theorem cwd (h : p.Alike p') : p'.cwd = p.cwd := (congrArg Proc.cwd h :)

theorem infantThreads (h : p.Alike p') : p'.infantThreads = p.infantThreads :=
  (congrArg Proc.infantThreads h :)

end Proc.Alike

namespace Touches

theorem of_proc_eq (h : m'.proc = m.proc) : Touches m m' L := ⟨fun t => by rw [h]; rfl, fun t _ => by rw [h]⟩

theorem trans (h : Touches m m' L) (h' : Touches m' m'' L) : Touches m m'' L :=
  ⟨fun t => Eq.trans (h'.alike t) (h.alike t), fun t ht => (h'.same t ht).trans (h.same t ht)⟩

theorem mono (h : Touches m m' L) (hL : ∀ t, L t → L' t) : Touches m m' L' :=
  ⟨h.alike, fun t ht => h.same t fun hl => ht (hL t hl)⟩

theorem of_kmem {k : Kmem} (h : Touches { m with kmem := k } m' L) : Touches m m' L := ⟨h.alike, h.same⟩

theorem infants (h : Touches m m' L) (s : Slot) : m'.infants s = m.infants s := by
  rw [Machine.infants, Machine.infants, (h.alike s).infantThreads]

theorem setProc {p : Proc} (hs : L s) (hp : (m.proc s).Alike p) : Touches m (m.setProc s p) L := by
  refine ⟨fun t => ?_, fun t ht => ?_⟩
  · by_cases h : t = s
    · subst h; simpa only [Machine.setProc, Function.update_self] using hp
    · simp only [Machine.setProc, Function.update_of_ne h]; rfl
  · exact Function.update_of_ne (fun h : t = s => ht (h.symm ▸ hs)) ..

theorem setSz {sz : Nat} (hs : L s) : Touches m (m.setSz s sz) L := setProc hs rfl

end Touches

theorem setSz_self {n : Nat} (h : (m.proc s).sz = n) : (m.setSz s n).proc = m.proc := by
  subst h; exact Function.update_eq_self s m.proc

theorem mem_infants : t ∈ m.infants s ↔ ∃ j, (m.proc s).infantThreads j = some t := by
  simp [Machine.infants]

/-- What a function on the page table of `s` does with the processes. -/
theorem onTable_spec {α : Type} {f : Kmem → PageTable → Except Stop (α × Kmem × PageTable)}
    {Q : PageTable → α → PageTable → Prop}
    (hf : ∀ pt, (m.proc s).pagetable = some pt → Ensures (f m.kmem pt) fun (r, _, pt') => Q pt r pt') :
    Ensures (m.onTable s f) fun (r, m') => m'.initproc = m.initproc ∧ ∃ pt pt',
      (m.proc s).pagetable = some pt ∧ Q pt r pt' ∧
      m'.proc = Function.update m.proc s { m.proc s with pagetable := some pt' } := by
  unfold Machine.onTable
  split
  · exact .error
  · rename_i pt hpt
    exact (hf pt hpt).bind fun (r, k, pt') hq => .ok ⟨rfl, pt, pt', hpt, hq, rfl⟩

theorem onTable_touches {α : Type} {f : Kmem → PageTable → Except Stop (α × Kmem × PageTable)} (hs : L s) :
    Ensures (m.onTable s f) fun (_, m') => Touches m m' L := by
  refine (onTable_spec (Q := fun _ _ _ => True) fun _ _ _ _ => trivial).mono ?_
  rintro ⟨r, m'⟩ ⟨-, -, pt', -, -, hp⟩
  exact (Touches.setProc (p := { m.proc s with pagetable := some pt' }) hs rfl).trans (.of_proc_eq hp)

/-! ## Threads -/

theorem mapThreads_touches {mem a : Nat} {perm : Perm} {l : List Slot} (hl : ∀ t ∈ l, L t) :
    Ensures (mapThreads m mem a oldsz newsz perm l) fun (_, m') => Touches m m' L := by
  induction l generalizing m with
  | nil => exact .ok (.of_proc_eq rfl)
  | cons t l ih =>
      have ht : L t := hl t List.mem_cons_self
      unfold mapThreads
      refine (onTable_touches ht).bind fun (b, m₁) h₁ => ?_
      cases b with
      | true =>
          refine (ih fun u hu => hl u (List.mem_cons_of_mem _ hu)).mono fun _ h₂ => ?_
          exact (h₁.trans (.setSz ht)).trans h₂
      | false =>
          refine Ensures.bind_any fun k => ?_
          refine (onTable_touches ht).bind fun (_, m₂) h₂ => .ok ?_
          exact h₁.trans h₂.of_kmem

/-- The processes whose memory a thread and its parent stand for: the thread, the parent and the threads of the
parent. -/
def InReach (m : Machine) (thread : Slot) (t : Slot) : Prop :=
  t = thread ∨ ∃ p, (m.proc thread).parent = some p ∧ (t = p ∨ t ∈ m.infants p)

theorem threadedLoop_touches {thread : Slot} {p : Option Slot} {a n : Nat} {perm : Perm}
    (ht : L thread) (hp : ∀ q, p = some q → L q ∧ ∀ t ∈ m.infants q, L t) :
    Ensures (threadedLoop m thread p a oldsz newsz perm n) fun (_, m') => Touches m m' L := by
  induction n generalizing m a with
  | zero => exact .ok (.of_proc_eq rfl)
  | succ n ih =>
      unfold threadedLoop
      split
      · exact (onTable_touches ht).bind fun (_, m₁) h₁ => .ok h₁.of_kmem
      · split
        · exact .error
        · rename_i parent
          obtain ⟨hq, hin⟩ := hp parent rfl
          have hall : ∀ t ∈ m.infants parent ++ [parent], L t := by
            intro t ht
            rcases List.mem_append.mp ht with ht | ht
            · exact hin t ht
            · obtain rfl := List.mem_singleton.mp ht; exact hq
          refine (mapThreads_touches hall).bind fun (b, m₁) h₁ => ?_
          replace h₁ : Touches m m₁ L := h₁.of_kmem
          cases b with
          | false => exact .ok h₁
          | true =>
              refine (ih fun q hq' => ?_).mono fun _ h₂ => h₁.trans h₂
              rw [h₁.infants]
              exact hp q hq'

theorem unmapThread_touches {va npages : Nat} {doFree : Bool} (hs : L s) :
    Ensures (unmapThread m s va npages doFree) fun m' => Touches m m' L := by
  unfold unmapThread
  split
  · exact .ok (.of_proc_eq rfl)
  · exact (onTable_touches hs).bind fun _ h => .ok h

theorem unmapThreads_touches {npages : Nat} {l : List Slot} (hl : ∀ t ∈ l, L t) :
    Ensures (unmapThreads m newsz npages l) fun m' => Touches m m' L := by
  induction l generalizing m with
  | nil => exact .ok (.of_proc_eq rfl)
  | cons t l ih =>
      have ht : L t := hl t List.mem_cons_self
      unfold unmapThreads
      refine (unmapThread_touches ht).bind fun m₁ h₁ => ?_
      refine (ih fun u hu => hl u (List.mem_cons_of_mem _ hu)).mono fun _ h₂ => ?_
      exact (h₁.trans (.setSz ht)).trans h₂

theorem uvmthreadedDealloc_touches :
    Ensures (uvmthreadedDealloc m s oldsz newsz) fun (_, m') => Touches m m' (InReach m s) := by
  unfold uvmthreadedDealloc
  split
  · exact .ok (.of_proc_eq rfl)
  · split
    · exact .error
    · rename_i p hp
      have hreach : InReach m s p := .inr ⟨p, hp, .inl rfl⟩
      have hin : ∀ t ∈ m.infants p, InReach m s t := fun t ht => .inr ⟨p, hp, .inr ht⟩
      refine (unmapThreads_touches hin).bind fun m₁ h₁ => ?_
      refine (unmapThread_touches hreach).bind fun m₂ h₂ => .ok ?_
      exact (h₁.trans h₂).trans (.setSz hreach)

theorem growAlloc_touches : Ensures (growAlloc m s newsz) fun (_, m') => Touches m m' (InReach m s) := by
  unfold growAlloc
  dsimp only
  split
  · unfold uvmthreadedAlloc
    split
    · exact .ok (.of_proc_eq rfl)
    · exact (threadedLoop_touches (.inl rfl) fun q hq =>
        ⟨.inr ⟨q, hq, .inl rfl⟩, fun t ht => .inr ⟨q, hq, .inr ht⟩⟩).bind fun _ h => .ok h
  · exact onTable_touches (.inl rfl)

theorem growDealloc_touches : Ensures (growDealloc m s newsz) fun (_, m') => Touches m m' (InReach m s) := by
  unfold growDealloc
  dsimp only
  split
  · exact uvmthreadedDealloc_touches
  · exact onTable_touches (.inl rfl)

/-- Whatever `growproc` returns, it is done with the caller and with those it reaches through its parent. -/
theorem growproc_touches {n : Int} : Ensures (growproc m s n) fun (_, m') => Touches m m' (InReach m s) := by
  unfold growproc
  dsimp only
  split
  · refine growAlloc_touches.bind fun (sz, m₁) h₁ => ?_
    dsimp only
    split
    · exact .ok h₁
    · exact .ok (h₁.trans (.setSz (.inl rfl)))
  · split
    · exact growDealloc_touches.bind fun (sz, m₁) h₁ => .ok (h₁.trans (.setSz (.inl rfl)))
    · exact .ok (.of_proc_eq rfl)

/-! ## Ending -/

/-- What `thread_exit` of `s` makes of a process. -/
def Proc.afterExit (m : Machine) (s : Slot) (status : Int) (t : Slot) : Proc :=
  { m.proc t with
    parent := if (m.proc t).parent = some s then some m.initproc else (m.proc t).parent
    cwd := if t = s then false else (m.proc t).cwd
    xstate := if t = s then status else (m.proc t).xstate
    state := if t = s then .zombie else (m.proc t).state }

theorem threadExit_proc {status : Int} : Ensures (threadExit m s status) fun m' =>
    (m.proc s).cwd = true ∧ ∀ t, m'.proc t = Proc.afterExit m s status t := by
  unfold threadExit iputCwd
  split
  · exact .error
  · split
    · rename_i hcwd
      refine .ok ⟨hcwd, fun t => ?_⟩
      simp only [Machine.setProc, reparent, Proc.afterExit]
      by_cases ht : t = s
      · subst ht
        simp only [Function.update_self, if_true]
        split <;> rfl
      · simp only [Function.update_of_ne ht, if_neg ht]
        split <;> rfl
    · exact .error

end Xv6Net.Procs
