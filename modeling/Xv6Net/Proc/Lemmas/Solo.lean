import Xv6Net.Proc.Lemmas.Calls
import Xv6Net.Proc.Lemmas.Created

/-!
# Processes without threads

As long as no thread is made, every process maps exactly the pages below its size.
-/

namespace Xv6Net.Procs

open Kernel Vm Lib

variable {held : Nat → Prop} {m m' : Machine} {s : Slot}

structure Proc.Single (p : Proc) : Prop where
  isThread : p.isThread = false
  infants : ∀ j, p.infantThreads j = none
  memory : p.state ≠ .unused → ∃ pt, p.pagetable = some pt ∧ pt.Covers p.sz

def Machine.Single (m : Machine) : Prop := ∀ s, (m.proc s).Single

theorem Machine.Single.solo (hi : MemInv held m) (hm : m.Single) (hs : (m.proc s).state = .runnable) : m.Solo s := by
  obtain ⟨hth, hin, hmem⟩ := hm s
  obtain ⟨pt, hpt, hcov⟩ := hmem (by rw [hs]; decide)
  have hleaf : ∀ i, ((m.proc s).leaf i).isSome ↔ i ∈ pt.leaves := fun i => by
    rw [Proc.leaf, hpt, Option.bind_some, AList.lookup_isSome]
  exact ⟨hth, hin, fun i hi' => (hleaf i).trans (hcov i hi'), hi.size s, (hleaf _).mpr (hi.trap s pt hpt)⟩

theorem Proc.Single.reset {p p' : Proc} (h : p.Single) (hr : Reset p p') : p'.Single := by
  refine ⟨by rw [hr.isThread]; exact h.isThread, fun j => ?_, fun hn => absurd hr.state hn⟩
  cases hj : p'.infantThreads j with
  | none => rfl
  | some t => have := hr.infants j t hj; rw [h.infants] at this; cases this

/-- The process has another page table or another size. -/
theorem Proc.Single.alike {p p' : Proc} (h : p.Single) (ha : p.Alike p')
    (hm : ∃ pt, p'.pagetable = some pt ∧ pt.Covers p'.sz) : p'.Single :=
  ⟨by rw [ha.isThread]; exact h.isThread, fun j => by rw [ha.infantThreads]; exact h.infants j, fun _ => hm⟩

/-! ## The image of a new program -/

section Exec

variable {k : Kmem} {pt : PageTable} {u c : Multiset Nat}

theorem loadProgram_covers {sz : Nat} {phdrs : List ProgHdr} (hsz : sz ≤ TRAPFRAME)
    (hacc : Accounted held k pt u c) (hc : pt.Covers sz) :
    Ensures (loadProgram k pt sz phdrs) fun (b, sz', _, pt') => b = true → pt'.Covers sz' := by
  induction phdrs generalizing k pt sz with
  | nil => exact .ok fun _ => hc
  | cons ph rest ih =>
      unfold loadProgram
      split
      · exact .ok fun hb => absurd hb Bool.false_ne_true
      split
      · exact ih hsz hacc hc
      iterate 3
        split
        · exact .ok fun hb => absurd hb Bool.false_ne_true
      refine ((uvmalloc_accounted hsz hacc).and (uvmalloc_covers hsz hacc.trap hc)).bind ?_
      rintro ⟨sz₁, k₁, pt₁⟩ ⟨⟨h₁, hsz₁⟩, hc₁⟩
      dsimp only at hc₁ ⊢
      split
      · exact .ok fun hb => absurd hb Bool.false_ne_true
      · rename_i h0
        rw [if_neg h0] at hc₁
        refine Ensures.bind_any fun b => ?_
        cases b with
        | true => exact ih hsz₁ h₁ hc₁
        | false => exact .ok fun hb => absurd hb Bool.false_ne_true

theorem buildImage_covers {phdrs : List ProgHdr} {argv : List Nat} (hacc : Accounted held k pt u c)
    (hhigh : ∀ i, i < USER_PAGES → i ∉ pt.leaves) :
    Ensures (buildImage k pt phdrs argv) fun (b, sz, _, pt') => b = true → pt'.Covers sz := by
  have hempty : pt.Covers 0 := fun i hi => ⟨fun h => absurd h (hhigh i hi), fun h => absurd h (Nat.not_lt_zero _)⟩
  unfold buildImage
  refine ((loadProgram_accounted (Nat.zero_le _) hacc).and (loadProgram_covers (Nat.zero_le _) hacc hempty)).bind
    fun (b, sz, k₁, pt₁) ⟨⟨h₁, hsz⟩, hc₁⟩ => ?_
  cases b with
  | false => exact .ok nofun
  | true =>
      have hup := (pgRoundUp_spec hsz).2.2.2
      refine (uvmalloc_covers hup h₁.trap ((hc₁ rfl).pgRoundUp hsz)).bind fun (sz₂, k₂, pt₂) hc₂ => ?_
      dsimp only at hc₂ ⊢
      split
      · exact .ok nofun
      · rename_i h0 he
        simp only [Prod.mk.injEq] at he
        obtain ⟨rfl, rfl, rfl⟩ := he
        rw [if_neg h0] at hc₂
        refine uvmclear_mem.bind fun pt₃ hmem => .ok fun _ i hi => ?_
        rw [hmem i]
        exact hc₂ i hi

end Exec

/-! ## Every call but `create_thread` -/

namespace Machine.Single

/-- Only the process `s` changes. -/
theorem set (hm : m.Single) (hs : (m'.proc s).Single) (h : ∀ t, t ≠ s → m'.proc t = m.proc t) : m'.Single := by
  intro t
  by_cases ht : t = s
  · subst ht; exact hs
  · rw [h t ht]; exact hm t

theorem fork (hm : m.Single) : Ensures (fork m s) fun (_, m') => m'.Single := by
  refine fork_result.mono fun (_, m') h => ?_
  rcases h with ⟨-, h⟩ | ⟨-, np, hn⟩
  · intro t
    rcases h.reset t with h | ⟨-, h⟩
    · rw [h]; exact hm t
    · exact (hm t).reset h
  · refine hm.set (s := np) ⟨hn.isThread, fun j => ?_, fun _ => hn.memory⟩ hn.others
    rw [hn.infants, clearInfants, (hm np).infants, ite_self]

/-- The page table of `s` is replaced, and then its size; `C` says which sizes the new table covers. -/
theorem onTable {α : Type} {f : Kmem → PageTable → Except Stop (α × Kmem × PageTable)} {C : α → Nat → Prop}
    (hm : m.Single)
    (hf : ∀ pt, (m.proc s).pagetable = some pt → Ensures (f m.kmem pt) fun (r, _, pt') => ∀ sz, C r sz → pt'.Covers sz) :
    Ensures (m.onTable s f) fun (r, m') =>
      (m'.proc s).sz = (m.proc s).sz ∧ ∀ sz, C r sz → (m'.setSz s sz).Single := by
  refine (onTable_spec (Q := fun _ r pt' => ∀ sz, C r sz → pt'.Covers sz) hf).mono ?_
  rintro ⟨r, m'⟩ ⟨-, -, pt', -, hc, hp⟩
  refine ⟨by rw [hp, Function.update_self], fun sz hsz => hm.set (s := s) ?_ fun t ht => ?_⟩
  · simp only [Machine.setSz, Machine.setProc, hp, Function.update_self]
    exact (hm s).alike rfl ⟨pt', rfl, hc sz hsz⟩
  · simp only [Machine.setSz, Machine.setProc, hp, Function.update_of_ne ht]

theorem growproc {n : Int} (hi : MemInv held m) (hm : m.Single) (hs : (m.proc s).state = .runnable) :
    Ensures (growproc m s n) fun (_, m') => m'.Single := by
  obtain ⟨pt, hpt, hcov⟩ := (hm s).memory (by rw [hs]; decide)
  have hsz := hi.size s
  have halloc : ∀ newsz, Ensures (growAlloc m s newsz) fun r => (r.2.proc s).sz = (m.proc s).sz ∧
      ∀ sz, sz = (if r.1 = 0 then (m.proc s).sz else r.1) → (r.2.setSz s sz).Single := by
    intro newsz
    simp only [growAlloc, (hm s).isThread, Bool.false_eq_true, if_false]
    refine hm.onTable (C := fun r sz => sz = if r = 0 then (m.proc s).sz else r) fun pt' hpt' => ?_
    obtain rfl : pt = pt' := Option.some.inj (hpt.symm.trans hpt')
    refine (uvmalloc_covers hsz (hi.trap s pt hpt) hcov).mono fun r h sz he => ?_
    rw [he]; exact h
  have hdealloc : ∀ newsz, Ensures (growDealloc m s newsz) fun r => (r.2.proc s).sz = (m.proc s).sz ∧
      ∀ sz, sz = r.1 → (r.2.setSz s sz).Single := by
    intro newsz
    simp only [growDealloc, (hm s).isThread, Bool.false_eq_true, if_false]
    refine hm.onTable (C := fun r sz => sz = r) fun pt' hpt' => ?_
    obtain rfl : pt = pt' := Option.some.inj (hpt.symm.trans hpt')
    refine (uvmdealloc_covers hsz hcov).mono fun r h sz he => ?_
    rw [he]; exact h
  unfold Procs.growproc
  dsimp only
  split
  · refine (halloc _).bind ?_
    rintro ⟨r, m₁⟩ ⟨hsame, h₁⟩
    dsimp only
    split
    · rename_i h0
      have h := h₁ (m.proc s).sz (by rw [if_pos h0])
      rw [Machine.Single, setSz_self hsame] at h
      exact .ok h
    · rename_i h0
      exact .ok (h₁ r (by rw [if_neg h0]))
  · split
    · exact (hdealloc _).bind fun r h => .ok (h.2 r.1 rfl)
    · exact .ok hm

/-- The program of `s` is replaced by one whose table covers its size, or nothing changes. -/
theorem exec {file : Option Elf} {argv : List Nat} (hi : MemInv held m) (hm : m.Single) :
    Ensures (exec m s file argv) fun (_, m') => m'.Single := by
  unfold Procs.exec
  split
  · exact .ok hm
  · split
    · exact .ok hm
    · split
      · refine ((procPagetable_ledger hi.ledger).and procPagetable_leaves).bind fun (r, k₁) ⟨hl₁, hr⟩ => ?_
        cases r with
        | none => exact .ok hm
        | some pt =>
            obtain ⟨htrap, hhigh⟩ := hr pt rfl
            have hacc : Accounted held k₁ pt m.userPages m.kernPages :=
              ⟨by rw [PageTable.user_eq_zero_of_high hhigh, zero_add]; exact hl₁, htrap⟩
            refine (buildImage_covers hacc hhigh).bind fun (b, sz, k₂, pt₂) hcov => ?_
            cases b with
            | false => exact Ensures.bind_any fun k₃ => .ok hm
            | true =>
                refine Ensures.bind_any fun k₃ => .ok (hm.set (s := s) ?_ fun t ht => Function.update_of_ne ht ..)
                simp only [Machine.setProc, Function.update_self]
                exact ⟨(hm s).isThread, (hm s).infants, fun _ => ⟨pt₂, rfl, hcov rfl⟩⟩
      · exact .error

theorem freeproc (hm : m.Single) : Ensures (freeproc m s) Machine.Single := by
  refine freeproc_proc.mono fun m' ⟨_, hp⟩ => hm.set (s := s) ?_ fun t ht => by rw [hp, Function.update_of_ne ht]
  rw [hp, Function.update_self]
  exact (hm s).reset (.freed _)

theorem wait {addr : Nat} (hm : m.Single) : Ensures (wait m s addr) fun (_, m') => m'.Single := by
  unfold Procs.wait
  split
  · split
    · exact .error
    · split
      · exact .ok hm
      · exact hm.freeproc.bind fun m₁ h₁ => .ok h₁
  · split <;> exact .ok hm

theorem threadExit {status : Int} (hm : m.Single) (hs : (m.proc s).state = .runnable) :
    Ensures (threadExit m s status) Machine.Single := by
  refine threadExit_proc.mono fun m' ⟨_, hp⟩ t => ?_
  have ht := hm t
  rw [hp t]
  refine ⟨ht.isThread, ht.infants, fun hu => ht.memory ?_⟩
  simp only [Proc.afterExit] at hu
  by_cases hts : t = s
  · subst hts; rw [hs]; decide
  · rwa [if_neg hts] at hu

theorem exit {status : Int} (hm : m.Single) (hs : (m.proc s).state = .runnable) :
    Ensures (exit m s status) Machine.Single := by
  unfold Procs.exit
  rw [if_neg (by rw [(hm s).isThread]; decide)]
  exact hm.threadExit hs

theorem procCall {a : ProcAct} (hi : MemInv held m) (hm : m.Single) (hrun : (m.proc a.caller).state = .runnable)
    (ha : MakesNoThread m a) : Ensures (procCall m a) Machine.Single := by
  cases a with
  | fork s => exact hm.fork.bind fun _ h => .ok h
  | createThread s => exact ha.elim
  | growproc s n => exact (hm.growproc hi hrun).bind fun _ h => .ok h
  | exec s file argv => exact (hm.exec hi).bind fun _ h => .ok h
  | exit s status => exact hm.exit hrun
  | threadExit s status => exact hm.threadExit hrun
  | wait s addr => exact hm.wait.bind fun _ h => .ok h

/-- Without threads every call is calm. -/
theorem pagesCalm {a : ProcAct} (hm : m.Single) (ha : MakesNoThread m a) : PagesCalm m a := by
  cases a with
  | createThread s => exact ha.elim
  | growproc s n => exact fun h => absurd ((hm s).isThread.symm.trans h) (by decide)
  | _ => trivial

theorem procStep {a : ProcAct} (hi : MemInv held m) (hm : m.Single) (ha : MakesNoThread m a)
    (h : procStep m a = some m') : MemInv held m' ∧ m'.Single := by
  obtain ⟨hrun, hc⟩ := procStep_eq_some.mp h
  exact ⟨procCall_memInv hi hrun (hm.pagesCalm ha) m' hc, hm.procCall hi hrun ha m' hc⟩

end Machine.Single

theorem FirstProcess.single {k : Kmem} (hf : m.FirstProcess k) : m.Single := by
  obtain ⟨⟨trampoline, initcode, hu⟩, pt, hpt, hmapped⟩ := hf
  have h : FirstMade m := userinit_result m hu
  intro t
  by_cases ht : t = m.initproc
  · subst ht
    refine ⟨h.isThread, h.infants, fun _ => ⟨pt, hpt, fun i hi => ?_⟩⟩
    rw [h.sz]
    refine ⟨fun hin => ?_, fun hlt => ?_⟩
    · rw [h.first pt hpt i hi hin]; decide
    · obtain rfl : i = 0 := by simp only [PGSIZE] at hlt; omega
      exact hmapped
  · rw [h.others t ht]
    exact ⟨rfl, fun _ => rfl, fun hu => absurd rfl hu⟩

end Xv6Net.Procs
