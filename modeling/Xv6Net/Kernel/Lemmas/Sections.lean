import Mathlib.Data.List.Nodup
import Xv6Net.Kernel.Sections

/-!
# Every page is free, being linked or allocated

The invariant of the allocator under interleaved sections, and what `kinit` starts it with.
-/

namespace Xv6Net.Kernel

open Lib

variable {k : Kmem} {l : Loan} {c : Nat}

/-! ## One section -/

theorem pageNum_pgRoundDown (a : Nat) : pageNum (pgRoundDown a) = pageNum a := by
  simp only [pageNum, pgRoundDown, PGSIZE]; omega

/-- The first section of `kfree` on a page of memory: the reference is one less, or the page is to be linked. -/
theorem kfreeDrop_ram (h : k.Ram p) :
    ∃ last k', kfreeDrop k p = .ok (last, k') ∧ k'.freelist = k.freelist ∧ k'.kend = k.kend ∧
      (∀ n, n ≠ pageNum p → k'.refCounter n = k.refCounter n) ∧
      (last = true ↔ k.refCounter (pageNum p) ≤ 1) ∧
      (last = false → k'.refCounter (pageNum p) + 1 = k.refCounter (pageNum p)) := by
  have hv : ¬ (p % PGSIZE ≠ 0 ∨ p < k.kend ∨ PHYSTOP ≤ p) := by unfold Kmem.Ram at h; omega
  unfold kfreeDrop
  rw [if_neg hv]
  split
  · rename_i hlt
    refine ⟨false, _, rfl, rfl, rfl, fun n hn => Function.update_of_ne hn .., by simp; omega, fun _ => ?_⟩
    simp only [Function.update_self]; omega
  · rename_i hle
    exact ⟨true, _, rfl, rfl, rfl, fun n hn => Function.update_of_ne hn .., by simp; omega,
      fun h => absurd h (by decide)⟩

theorem linkPage_ram (h : k.Ram p) :
    (linkPage k p).freelist = p :: k.freelist ∧ (linkPage k p).refCounter = k.refCounter ∧
      (linkPage k p).kend = k.kend := by
  unfold linkPage
  rw [dif_pos h]
  exact ⟨rfl, rfl, rfl⟩

/-! ## `kinit` -/

/-- The loop of `freerange` from `p` on frees `n` pages, if those below `p` were all it has freed before. -/
theorem freerange_result {k' : Kmem} : ∀ {n : Nat} {k : Kmem} {p : Nat}, freerange k p n = .ok k' →
    k.freelist.Nodup → (∀ q ∈ k.freelist, q < p) → (∀ n, k.refCounter n = 0) →
    k'.kend = k.kend ∧ k'.freelist.Nodup ∧
      ∀ q, q ∈ k'.freelist ↔ q ∈ k.freelist ∨ ∃ i, i < n ∧ q = p + i * PGSIZE
  | 0, k, p, h, hnd, _, _ => by
      cases h; simp [hnd]
  | n + 1, k, p, h, hnd, hlow, hzero => by
      rw [freerange] at h
      cases hk : kfree k p with
      | error e => rw [hk] at h; cases h
      | ok k₁ =>
          rw [hk] at h
          obtain ⟨he, -, -, -, hc⟩ := kfree_eq_ok hk
          rcases hc with ⟨hlt, -, -⟩ | ⟨-, hf, hr⟩
          · rw [hzero] at hlt; omega
          · have hp : p ∉ k.freelist := fun hm => Nat.lt_irrefl p (hlow p hm)
            have hlow' : ∀ q ∈ k₁.freelist, q < p + PGSIZE := by
              intro q hq
              rw [hf, List.mem_cons] at hq
              rcases hq with rfl | hq
              · simp [PGSIZE]
              · have := hlow q hq; omega
            have hzero' : ∀ n, k₁.refCounter n = 0 := by
              intro n
              rw [hr, Function.update_apply, hzero, ite_self]
            obtain ⟨he', hnd', hmem⟩ := freerange_result h (by rw [hf]; exact List.nodup_cons.mpr ⟨hp, hnd⟩) hlow' hzero'
            refine ⟨he'.trans he, hnd', fun q => ?_⟩
            rw [hmem, hf, List.mem_cons]
            constructor
            · rintro ((rfl | hq) | ⟨i, hi, rfl⟩)
              · exact .inr ⟨0, by omega, by omega⟩
              · exact .inl hq
              · exact .inr ⟨i + 1, by omega, by rw [Nat.add_mul]; omega⟩
            · rintro (hq | ⟨i, hi, rfl⟩)
              · exact .inl (.inr hq)
              · cases i with
                | zero => exact .inl (.inl (by omega))
                | succ i => exact .inr ⟨i, by omega, by rw [Nat.add_mul]; omega⟩

/-- A page of memory is one that the loop of `freerange` comes to. -/
theorem Kmem.Ram.freerange_index (h : k.Ram p) :
    ∃ i, i < (PHYSTOP - pgRoundUp k.kend) / PGSIZE ∧ p = pgRoundUp k.kend + i * PGSIZE := by
  obtain ⟨hal, hlo, hhi⟩ := h
  have hup : pgRoundUp k.kend % PGSIZE = 0 ∧ pgRoundUp k.kend ≤ p := by
    have htop : p < 2281701376 := hhi
    simp only [PGSIZE, pgRoundUp] at *; omega
  have htop : PHYSTOP % PGSIZE = 0 := rfl
  refine ⟨(p - pgRoundUp k.kend) / PGSIZE, ?_, ?_⟩
  · simp only [PGSIZE] at *; omega
  · simp only [PGSIZE] at *; omega

/-- After `kinit` the free list holds every page of memory once. -/
theorem kinit_result {kend : Nat} {hkend : KERNBASE ≤ kend} (h : kinit kend hkend = .ok k) :
    k.kend = kend ∧ k.freelist.Nodup ∧ ∀ p, p ∈ k.freelist ↔ k.Ram p := by
  unfold kinit at h
  obtain ⟨he, hnd, hmem⟩ := freerange_result h List.nodup_nil (fun _ hq => nomatch hq) (fun _ => rfl)
  have he : k.kend = kend := he
  refine ⟨he, hnd, fun p => ⟨fun hp => k.valid p hp, fun hp => (hmem p).mpr (.inr ?_)⟩⟩
  rw [← he]
  exact hp.freerange_index

/-! ## The invariant, page by page -/

/-- A page is in exactly one place: on the free list, once; in one `kfree` call; or allocated, and then its count is
the number of references left. -/
structure PageOk (s : AllocSys) (p : Nat) : Prop where
  once : s.kmem.freelist.count p ≤ 1
  cover : s.kmem.Ram p → p ∈ s.kmem.freelist ∨ s.Linking p ∨ s.Allocated p
  free : p ∈ s.kmem.freelist → ¬ s.Linking p ∧ ¬ s.Allocated p
  linking : s.Linking p → s.kmem.Ram p ∧ ¬ s.Allocated p
  alone : ∀ c c', s.pc c = .linking p → s.pc c' = .linking p → c = c'
  loan : ∀ l, s.loans p = some l → s.kmem.Ram p ∧ l.frees ≤ 1 + l.adds
  refs : ∀ l, s.loans p = some l → l.Open → s.kmem.refCounter (pageNum p) + l.frees = 1 + l.adds

/-- A step has left the page alone. -/
structure SameAt (s t : AllocSys) (p : Nat) : Prop where
  kend : t.kmem.kend = s.kmem.kend
  free : t.kmem.freelist.count p = s.kmem.freelist.count p
  linking : ∀ c, t.pc c = .linking p ↔ s.pc c = .linking p
  loans : t.loans p = s.loans p
  refs : s.kmem.Ram p → t.kmem.refCounter (pageNum p) = s.kmem.refCounter (pageNum p)

theorem ram_congr {k' : Kmem} (h : k'.kend = k.kend) (p : Nat) : k'.Ram p ↔ k.Ram p := by
  unfold Kmem.Ram; rw [h]

theorem PageOk.of_same {s t : AllocSys} (h : PageOk s p) (hst : SameAt s t p) : PageOk t p := by
  have hram := ram_congr hst.kend p
  have hfree : p ∈ t.kmem.freelist ↔ p ∈ s.kmem.freelist := by
    rw [← List.count_pos_iff, hst.free, List.count_pos_iff]
  have hlinking : t.Linking p ↔ s.Linking p := exists_congr hst.linking
  have hallocated : t.Allocated p ↔ s.Allocated p := by unfold AllocSys.Allocated; rw [hst.loans]
  constructor
  · rw [hst.free]; exact h.once
  · rw [hram, hfree, hlinking, hallocated]; exact h.cover
  · rw [hfree, hlinking, hallocated]; exact h.free
  · rw [hram, hlinking, hallocated]; exact h.linking
  · intro c c' hc hc'
    exact h.alone c c' ((hst.linking c).mp hc) ((hst.linking c').mp hc')
  · rw [hst.loans, hram]; exact h.loan
  · intro l hl hopen
    rw [hst.loans] at hl
    rw [hst.refs (h.loan l hl).1]
    exact h.refs l hl hopen

structure AllocInv (s : AllocSys) : Prop where
  pages : ∀ p, PageOk s p
  running : ∀ c e, s.pc c ≠ .panicked e

theorem AllocInv.boot {kend : Nat} {hkend : KERNBASE ≤ kend} (h : kinit kend hkend = .ok k) : AllocInv (.boot k) := by
  obtain ⟨-, hnd, hmem⟩ := kinit_result h
  refine ⟨fun p => ?_, fun _ _ hc => nomatch hc⟩
  exact {
    once := List.nodup_iff_count_le_one.mp hnd p
    cover := fun hp => .inl ((hmem p).mpr hp)
    free := fun _ => ⟨fun ⟨_, hc⟩ => (nomatch hc), fun ⟨_, hl, _⟩ => (nomatch hl)⟩
    linking := fun ⟨_, hc⟩ => nomatch hc
    alone := fun _ _ hc => nomatch hc
    loan := fun _ hl => nomatch hl
    refs := fun _ hl => nomatch hl }

/-! ## Steps -/

section Step

variable {s t : AllocSys} {p : Nat}

theorem onLoan_eq_some {f : Loan → Loan} (h : s.onLoan p f = some t) :
    ∃ l, s.loans p = some l ∧ l.Open ∧ t = { s with loans := Function.update s.loans p (some (f l)) } := by
  unfold AllocSys.onLoan at h
  split at h
  · rename_i l hl
    split at h
    · cases h; exact ⟨l, hl, ‹_›, rfl⟩
    · cases h
  · cases h

theorem allocated_iff (h : s.loans p = some l) : s.Allocated p ↔ l.Open := by
  simp [AllocSys.Allocated, h]

/-- An allocated page is on no list. -/
theorem PageOk.allocated (h : PageOk s p) (hl : s.loans p = some l) (hopen : l.Open) :
    p ∉ s.kmem.freelist ∧ ¬ s.Linking p ∧ s.kmem.Ram p := by
  have ha : s.Allocated p := ⟨l, hl, hopen⟩
  exact ⟨fun hf => (h.free hf).2 ha, fun hk => (h.linking hk).2 ha, (h.loan l hl).1⟩

section

variable (h : AllocInv s)
include h

theorem AllocInv.kalloc_some (hk : kalloc s.kmem = (some p, k)) :
    AllocInv { s with kmem := k, loans := Function.update s.loans p (some ⟨0, 0⟩) } := by
  obtain ⟨hf, hr, he⟩ := kalloc_eq_some hk
  have hfree : p ∈ s.kmem.freelist := by rw [hf]; exact List.mem_cons_self
  have hram : s.kmem.Ram p := s.kmem.valid p hfree
  have hnone : p ∉ k.freelist := by
    have := (h.pages p).once
    rw [hf, List.count_cons_self] at this
    exact List.count_eq_zero.mp (by omega)
  obtain ⟨hnl, -⟩ := (h.pages p).free hfree
  refine ⟨fun q => ?_, h.running⟩
  by_cases hq : q = p
  · subst hq
    exact {
      once := by simp [List.count_eq_zero.mpr hnone]
      cover := fun _ => .inr (.inr ⟨⟨0, 0⟩, Function.update_self .., by decide⟩)
      free := fun hm => absurd hm hnone
      linking := fun hl => absurd hl hnl
      alone := (h.pages q).alone
      loan := fun l hl => by
        simp only [Function.update_self, Option.some.injEq] at hl
        subst hl
        exact ⟨(ram_congr he q).mpr hram, by simp⟩
      refs := fun l hl _ => by
        simp only [Function.update_self, Option.some.injEq] at hl
        subst hl
        simp [hr] }
  · refine (h.pages q).of_same ⟨he, ?_, fun _ => Iff.rfl, Function.update_of_ne hq .., fun hram' => ?_⟩
    · simp only [hf, List.count_cons_of_ne (Ne.symm hq)]
    · simp only [hr, Function.update_of_ne (hram'.pageNum_ne hram hq)]

theorem AllocInv.kalloc_none (hk : kalloc s.kmem = (none, k)) : AllocInv { s with kmem := k } := by
  obtain ⟨hf, hr, he⟩ := kalloc_eq_none hk
  refine ⟨fun q => (h.pages q).of_same ⟨he, by rw [hf], fun _ => Iff.rfl, rfl, fun hram => ?_⟩, h.running⟩
  simp only [hr, Function.update_of_ne hram.pageNum_ne_zero]

/-- A call on an allocated page that leaves it allocated changes its loan and its count. -/
theorem AllocInv.stays {l' : Loan} (hl : s.loans p = some l) (hopen : l.Open)
    (hf : k.freelist = s.kmem.freelist) (he : k.kend = s.kmem.kend)
    (hr : ∀ n, n ≠ pageNum p → k.refCounter n = s.kmem.refCounter n) (hopen' : l'.Open)
    (hcount : k.refCounter (pageNum p) + l'.frees = 1 + l'.adds) :
    AllocInv { s with kmem := k, loans := Function.update s.loans p (some l') } := by
  obtain ⟨hnf, hnl, hram⟩ := (h.pages p).allocated hl hopen
  refine ⟨fun q => ?_, h.running⟩
  by_cases hq : q = p
  · subst hq
    exact {
      once := by simpa only [hf] using (h.pages q).once
      cover := fun _ => .inr (.inr ⟨l', Function.update_self .., hopen'⟩)
      free := fun hm => absurd (hf ▸ hm) hnf
      linking := fun hk => absurd hk hnl
      alone := (h.pages q).alone
      loan := fun i hi => by
        simp only [Function.update_self, Option.some.injEq] at hi
        subst hi
        exact ⟨(ram_congr he q).mpr hram, by unfold Loan.Open at hopen'; omega⟩
      refs := fun i hi _ => by
        simp only [Function.update_self, Option.some.injEq] at hi
        subst hi
        exact hcount }
  · refine (h.pages q).of_same ⟨he, by rw [hf], fun _ => Iff.rfl, Function.update_of_ne hq .., fun hram' => ?_⟩
    exact hr _ (hram'.pageNum_ne hram hq)

/-- The last reference is taken: the page waits to be linked. -/
theorem AllocInv.leaves (hl : s.loans p = some l) (hopen : l.Open)
    (hf : k.freelist = s.kmem.freelist) (he : k.kend = s.kmem.kend)
    (hr : ∀ n, n ≠ pageNum p → k.refCounter n = s.kmem.refCounter n) (hlast : l.frees = l.adds)
    (hc : s.pc c = .idle) :
    AllocInv ⟨k, Function.update s.pc c (.linking p), Function.update s.loans p (some ⟨l.adds, l.frees + 1⟩)⟩ := by
  obtain ⟨hnf, hnl, hram⟩ := (h.pages p).allocated hl hopen
  have hpc : ∀ q c', Function.update s.pc c (.linking p) c' = .linking q ↔ q = p ∧ c' = c ∨ s.pc c' = .linking q := by
    intro q c'
    by_cases hcc : c' = c
    · subst hcc; simp [hc, eq_comm]
    · simp [hcc]
  have hclosed : ¬ (⟨l.adds, l.frees + 1⟩ : Loan).Open := by simp only [Loan.Open]; omega
  have hnot : ¬ (AllocSys.mk k (Function.update s.pc c (.linking p))
      (Function.update s.loans p (some ⟨l.adds, l.frees + 1⟩))).Allocated p := by
    rwa [allocated_iff (Function.update_self ..)]
  refine ⟨fun q => ?_, fun c' e hp => ?_⟩
  · by_cases hq : q = p
    · subst hq
      exact {
        once := by simpa only [hf] using (h.pages q).once
        cover := fun _ => .inr (.inl ⟨c, Function.update_self ..⟩)
        free := fun hm => absurd (hf ▸ hm) hnf
        linking := fun _ => ⟨(ram_congr he q).mpr hram, hnot⟩
        alone := fun c₁ c₂ h₁ h₂ => by
          rcases (hpc q c₁).mp h₁ with ⟨-, rfl⟩ | h₁
          · rcases (hpc q c₂).mp h₂ with ⟨-, rfl⟩ | h₂
            · rfl
            · exact absurd ⟨c₂, h₂⟩ hnl
          · exact absurd ⟨c₁, h₁⟩ hnl
        loan := fun i hi => by
          simp only [Function.update_self, Option.some.injEq] at hi
          subst hi
          exact ⟨(ram_congr he q).mpr hram, by simp only; omega⟩
        refs := fun i hi hio => by
          simp only [Function.update_self, Option.some.injEq] at hi
          subst hi
          exact absurd hio hclosed }
    · refine (h.pages q).of_same ⟨he, by rw [hf], fun c' => ?_, Function.update_of_ne hq .., fun hram' => ?_⟩
      · rw [hpc]; simp [hq]
      · exact hr _ (hram'.pageNum_ne hram hq)
  · by_cases hcc : c' = c
    · subst hcc; simp at hp
    · simp only [Function.update_of_ne hcc] at hp; exact h.running c' e hp

theorem AllocInv.link (hc : s.pc c = .linking p) :
    AllocInv { s with kmem := linkPage s.kmem p, pc := Function.update s.pc c .idle } := by
  obtain ⟨hram, hna⟩ := (h.pages p).linking ⟨c, hc⟩
  obtain ⟨hf, hr, he⟩ := linkPage_ram hram
  have hnf : p ∉ s.kmem.freelist := fun hm => ((h.pages p).free hm).1 ⟨c, hc⟩
  have hnl : ∀ c', Function.update s.pc c .idle c' ≠ .linking p := by
    intro c' hc'
    by_cases hcc : c' = c
    · subst hcc; simp at hc'
    · rw [Function.update_of_ne hcc] at hc'
      exact hcc ((h.pages p).alone c' c hc' hc)
  refine ⟨fun q => ?_, fun c' e hp => ?_⟩
  · by_cases hq : q = p
    · subst hq
      exact {
        once := by simp [hf, List.count_eq_zero.mpr hnf]
        cover := fun _ => .inl (by rw [hf]; exact List.mem_cons_self)
        free := fun _ => ⟨fun ⟨c', hc'⟩ => hnl c' hc', hna⟩
        linking := fun ⟨c', hc'⟩ => absurd hc' (hnl c')
        alone := fun c' _ hc' => absurd hc' (hnl c')
        loan := fun l hl => by rw [ram_congr he]; exact (h.pages q).loan l hl
        refs := fun l hl ho => absurd ⟨l, hl, ho⟩ hna }
    · refine (h.pages q).of_same ⟨he, ?_, fun c' => ?_, rfl, fun _ => by rw [hr]⟩
      · simp only [hf, List.count_cons_of_ne (Ne.symm hq)]
      · by_cases hcc : c' = c
        · subst hcc; simp [hc, Ne.symm hq]
        · simp [Function.update_of_ne hcc]
  · by_cases hcc : c' = c
    · subst hcc; simp at hp
    · simp only [Function.update_of_ne hcc] at hp; exact h.running c' e hp

/-- What the first section of `kfree` does on a page with references left: it goes on to link the page exactly if it
took the last one. -/
theorem AllocInv.kfree_cases (hs : allocStep s (.kfree c p) = some t) :
    ∃ l k, s.pc c = .idle ∧ s.loans p = some l ∧ l.Open ∧ k.freelist = s.kmem.freelist ∧ k.kend = s.kmem.kend ∧
      (∀ n, n ≠ pageNum p → k.refCounter n = s.kmem.refCounter n) ∧
      (l.frees < l.adds ∧ k.refCounter (pageNum p) + (l.frees + 1) = 1 + l.adds ∧
          t = { s with kmem := k, loans := Function.update s.loans p (some ⟨l.adds, l.frees + 1⟩) } ∨
        l.frees = l.adds ∧
          t = ⟨k, Function.update s.pc c (.linking p), Function.update s.loans p (some ⟨l.adds, l.frees + 1⟩)⟩) := by
  simp only [allocStep] at hs
  split at hs
  · rename_i hc
    obtain ⟨u, hu, rfl⟩ := Option.map_eq_some_iff.mp hs
    obtain ⟨l, hl, hopen, rfl⟩ := onLoan_eq_some hu
    obtain ⟨last, k, hk, hf, he, hr, hlast, hless⟩ := kfreeDrop_ram ((h.pages p).loan l hl).1
    have hcount := (h.pages p).refs l hl hopen
    refine ⟨l, k, hc, hl, hopen, hf, he, hr, ?_⟩
    rw [hk]
    cases last with
    | false =>
        have hlt := hless rfl
        have hmore : ¬ s.kmem.refCounter (pageNum p) ≤ 1 := by simpa using hlast
        exact .inl ⟨by omega, by omega, rfl⟩
    | true =>
        have hle := hlast.mp rfl
        unfold Loan.Open at hopen
        exact .inr ⟨by omega, rfl⟩
  · cases hs

theorem AllocInv.step {a : AllocAct} (hs : allocStep s a = some t) : AllocInv t := by
  cases a with
  | kalloc c =>
      simp only [allocStep] at hs
      split at hs
      · split at hs
        · cases hs; exact h.kalloc_some ‹_›
        · cases hs; exact h.kalloc_none ‹_›
      · cases hs
  | addPageReference c ptr =>
      simp only [allocStep] at hs
      split at hs
      · obtain ⟨u, hu, rfl⟩ := Option.map_eq_some_iff.mp hs
        obtain ⟨l, hl, hopen, rfl⟩ := onLoan_eq_some hu
        have hcount := (h.pages _).refs l hl hopen
        rw [pageNum_pgRoundDown] at hcount
        refine h.stays hl hopen rfl rfl (fun n hn => ?_) (by unfold Loan.Open at *; simp only; omega) ?_
        · rw [pageNum_pgRoundDown] at hn; exact Function.update_of_ne hn ..
        · rw [pageNum_pgRoundDown]; simp only [addPageReference, Function.update_self]; omega
      · cases hs
  | kfree c p =>
      obtain ⟨l, k, hc, hl, hopen, hf, he, hr, ⟨hlt, hcount, rfl⟩ | ⟨hlast, rfl⟩⟩ := h.kfree_cases hs
      · exact h.stays hl hopen hf he hr (by simp only [Loan.Open]; omega) hcount
      · exact h.leaves hl hopen hf he hr hlast hc
  | link c =>
      simp only [allocStep] at hs
      split at hs
      · cases hs; exact h.link ‹_›
      · cases hs

/-- Only the second section of `kfree` puts a page on the free list. -/
theorem AllocInv.grows {a : AllocAct} (hs : allocStep s a = some t) :
    t.kmem.kend = s.kmem.kend ∧
      ∀ p ∈ t.kmem.freelist, p ∉ s.kmem.freelist → ∃ c, a = .link c ∧ s.pc c = .linking p := by
  cases a with
  | kalloc c =>
      simp only [allocStep] at hs
      split at hs
      · split at hs
        · rename_i hk
          obtain ⟨hf, -, he⟩ := kalloc_eq_some hk
          cases hs
          exact ⟨he, fun q hq hn => absurd (by rw [hf]; exact List.mem_cons_of_mem _ hq) hn⟩
        · rename_i hk
          obtain ⟨hf, -, he⟩ := kalloc_eq_none hk
          cases hs
          exact ⟨he, fun q hq hn => absurd (hf ▸ hq) hn⟩
      · cases hs
  | addPageReference c ptr =>
      simp only [allocStep] at hs
      split at hs
      · obtain ⟨u, hu, rfl⟩ := Option.map_eq_some_iff.mp hs
        exact ⟨rfl, fun q hq hn => absurd hq hn⟩
      · cases hs
  | kfree c p =>
      obtain ⟨l, k, -, -, -, hf, he, -, ⟨-, -, rfl⟩ | ⟨-, rfl⟩⟩ := h.kfree_cases hs
      · exact ⟨he, fun q hq hn => absurd (hf ▸ hq) hn⟩
      · exact ⟨he, fun q hq hn => absurd (hf ▸ hq) hn⟩
  | link c =>
      simp only [allocStep] at hs
      split at hs
      · rename_i p hc
        cases hs
        obtain ⟨hf, -, he⟩ := linkPage_ram ((h.pages p).linking ⟨c, hc⟩).1
        refine ⟨he, fun q hq hn => ⟨c, rfl, ?_⟩⟩
        simp only [hf, List.mem_cons] at hq
        rw [hq.resolve_right hn]; exact hc
      · cases hs

end

end Step

end Xv6Net.Kernel
