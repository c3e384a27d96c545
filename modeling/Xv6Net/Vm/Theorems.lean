import Xv6Net.Vm.Lemmas.Exact
import Xv6Net.Vm.Lemmas.RefIndex
import Xv6Net.Vm.Lemmas.UserCopy

/-!
# Theorems on page tables and user memory

The copies between the kernel and user memory are exact on every word, but `copyout` writes to pages that the user may
only read. A failed `uvmshare` keeps the references that it has added. The counts of references are outside of their array.
-/

namespace Xv6Net.Vm

open Kernel Lib

/-! ## Exact copies -/

/-- `copyin` succeeds on the ranges whose pages are all of the user and delivers their bytes. `copyinstr` succeeds where
a NUL stands below the limit behind such pages, and delivers the string up to it. What `copyout` has written can be read
again, and nothing else has changed. -/
theorem user_copies_exact {pt : PageTable} (hpa : ∀ i pte, pt.leaves.lookup i = some pte → pte.pa ≠ 0) (mem : Memory)
    (va : UInt64) :
    (∀ len : UInt64, ((copyin pt mem va len).1 = true ↔ pt.UserRange va.toNat len.toNat) ∧
      ((copyin pt mem va len).1 = true → Delivers pt mem va.toNat len.toNat (copyin pt mem va len).2)) ∧
    (∀ max : UInt64,
      ((copyinstr pt mem va max).1 = true ↔
        ∃ k < max.toNat, pt.UserRange va.toNat (k + 1) ∧ userByte pt mem (va.toNat + k) = some 0) ∧
      (copyinstr pt mem va max).2.length ≤ max.toNat ∧
      ((copyinstr pt mem va max).1 = true → ∃ s, (copyinstr pt mem va max).2 = s ++ [0] ∧ 0 ∉ s ∧
        Delivers pt mem va.toNat (s.length + 1) (s ++ [0]))) ∧
    (pt.UserOwn → ∀ (src : List UInt8) (mem' : Memory), src.length < 2 ^ 64 →
      (copyoutLogged pt mem va src).val = (true, mem') →
        copyin pt mem' va (.ofNat src.length) = (true, src) ∧
          ∀ a, (∀ i < src.length, userAddr pt (va.toNat + i) ≠ some a) → mem' a = mem a) := by
  refine ⟨fun len => ?_, fun max => ?_, fun hown src mem' hsrc hout => ?_⟩
  · have hcopied := copyinFrom_copied pt mem va.toNat len.toNat
    rw [copyin_eq, hcopied.done_iff, maps_iff_userRange hpa]
    exact ⟨Iff.rfl, fun hrange => hcopied.delivers (hcopied.done_iff.mpr ((maps_iff_userRange hpa _ _).mpr hrange))⟩
  · have hscan := copyinstr_scan pt mem va max
    refine ⟨?_, hscan.le, fun hfound => ?_⟩
    · simp only [hscan.found_iff, userByte_all_isSome, maps_iff_userRange hpa]
    · obtain ⟨s, hs, hz⟩ := hscan.found hfound
      refine ⟨s, hs, hz, by simp, fun i hi => ?_⟩
      rw [← hs]
      exact hscan.bytes i (by rw [hs]; simpa using hi)
  · rw [copyoutLogged_val pt mem va hsrc] at hout
    have hcopied := copyoutTo_copied hown hout
    refine ⟨?_, hcopied.rest⟩
    rw [copyin_eq, UInt64.toNat_ofNat_of_lt' hsrc]
    exact hcopied.copyin

/-- A page of text, which is mapped without `PTE_W`, and a page of data. -/
def textAndData : PageTable :=
  ((((PageTable.empty 1).storeDir 0 2).storeTab 0 3).storeLeaf 0 ⟨PHYSTOP - 2 * PGSIZE, false, true, true⟩).storeLeaf 1
    ⟨PHYSTOP - 4 * PGSIZE, true, false, true⟩

theorem textAndData_leaf {P : Nat → Pte → Prop} (h : ∀ e ∈ textAndData.leaves.entries, P e.1 e.2) (i : Nat) (pte : Pte)
    (hi : textAndData.leaves.lookup i = some pte) : P i pte := h ⟨i, pte⟩ (AList.mem_lookup_iff.mp hi)

theorem user_copies_exact_text :
    (copyin textAndData (fun _ => 7) 4094 4).1 = true ∧ copyin textAndData (fun _ => 7) 4094 4 = (true, [7, 7, 7, 7]) ∧
      ((copyin textAndData (fun _ => 7) 4094 4).1 = true ↔ textAndData.UserRange 4094 4) :=
  ⟨by decide +kernel, by decide +kernel,
    ((user_copies_exact (textAndData_leaf (by decide +kernel)) (fun _ => 7) 4094).1 4).1⟩

/-! ## Protection -/

/-- `copyout` looks at `PTE_U` and not at `PTE_W`: it keeps to the protection of the pages if all that it gets to are
writable, the pages of the range up to the first that is not mapped for the user. -/
theorem copyout_respects_protection_iff (pt : PageTable) (dstva len : UInt64) :
    RespectsProtection pt dstva len ↔
      ∀ i < len.toNat, pt.Maps dstva.toNat (i + 1) → pt.Writable ((dstva.toNat + i) / PGSIZE) := by
  constructor
  · intro h i hi hmaps
    have hlen : (List.replicate len.toNat (0 : UInt8)).length = len.toNat := List.length_replicate
    refine (h (fun _ => 0) _ hlen).1 _ ?_
    rw [mem_copyoutLogged_log _ _ _ (hlen.symm ▸ len.toNat_lt), hlen]
    exact ⟨i, hi, hmaps, rfl⟩
  · intro h mem src hsrc
    have hlt : src.length < 2 ^ 64 := hsrc ▸ len.toNat_lt
    have hlog := mem_copyoutLogged_log pt mem dstva hlt
    have hval := copyoutLogged_val pt mem dstva hlt
    refine ⟨fun page hpage => ?_, fun a ha => ?_, fun i hi hro => ?_⟩
    · obtain ⟨i, hi, hmaps, rfl⟩ := (hlog page).mp hpage
      exact h i (hsrc ▸ hi) hmaps
    · rw [hval] at ha
      obtain ⟨i, hi, hmaps, hi'⟩ := copyoutBytes_changed (Nat.le_refl _) ha
      exact ⟨i, hsrc ▸ hi, hi', (hlog _).mpr ⟨i, hi, hmaps, rfl⟩⟩
    · -- a page without `PTE_W` is not reached
      have hout : ∀ j < len.toNat, (dstva.toNat + j) / PGSIZE = (dstva.toNat + i) / PGSIZE →
          ¬ pt.Maps dstva.toNat (j + 1) := by
        intro j hj hpage hmaps
        obtain ⟨pte, hpte, -, hw⟩ := h j hj hmaps
        obtain ⟨pte', hpte', hw'⟩ := hro
        rw [hpage, hpte'] at hpte
        cases hpte
        rw [hw] at hw'
        cases hw'
      constructor
      · rw [hval, Bool.eq_false_iff]
        intro hdone
        exact hout i hi rfl (((copyoutTo_iff mem).mp hdone).mono (hsrc ▸ hi))
      · intro hmem
        obtain ⟨j, hj, hmaps, hpage⟩ := (hlog _).mp hmem
        exact hout j (hsrc ▸ hj) hpage hmaps

/-- A byte is copied to the page of text. -/
theorem copyout_writes_text : textAndData.ReadOnly 0 ∧
    (copyoutLogged textAndData (fun _ => 0) 0 [7]).val.1 = true ∧
    (copyoutLogged textAndData (fun _ => 0) 0 [7]).val.2 (PHYSTOP - 2 * PGSIZE) = 7 ∧
    ¬ RespectsProtection textAndData 0 1 := by
  refine ⟨⟨_, rfl, rfl⟩, by decide +kernel, by decide +kernel, fun h => ?_⟩
  have hlog : 0 ∈ (copyoutLogged textAndData (fun _ => 0) 0 [7]).log := by decide +kernel
  exact ((h (fun _ => 0) [7] rfl).2.2 0 (by decide) ⟨_, rfl, rfl⟩).2 hlog

/-! ## Sharing that fails -/

/-- If `uvmshare` returns -1, then no user page is mapped in the new table, and the pages in `counted` have as many
references as before. -/
def ShareFailsClean (k : Kmem) (old new : PageTable) (sz : Nat) (counted : Nat → Prop) : Prop :=
  Ensures (uvmshare k old new sz) fun (ok, k', new') => ok = false →
    (∀ i, i < USER_PAGES → i ∉ new'.leaves) ∧
      ∀ p, k.Ram p → counted p → k'.refCounter (pageNum p) = k.refCounter (pageNum p)

/-- A failed `uvmshare` takes no reference back. It leaves the counts of the pages in use alone if it fails at the first
page or not at all, and those of all pages if moreover it has taken no page for a table. -/
theorem uvmshare_failure_clean_iff {k : Kmem} {old new : PageTable} {sz n : Nat} (hsz : sz ≤ TRAPFRAME)
    (hold : SharedPages k old sz n) (hnew : ∀ i, i < USER_PAGES → i ∉ new.leaves) (hnodup : k.freelist.Nodup)
    (hzero : ∀ p ∈ k.freelist, k.refCounter (pageNum p) = 0) :
    (ShareFailsClean k old new sz (fun _ => True) ↔
      new.lacks 0 n ≤ k.freelist.length ∨ k.freelist = [] ∧ 0 < new.missing 0) ∧
    (ShareFailsClean k old new sz (· ∉ k.freelist) ↔
      new.lacks 0 n ≤ k.freelist.length ∨ k.freelist.length < new.missing 0) := by
  have hfails := uvmshare_fails hsz hold.used hnew
  have hreturns := fun hlt => uvmshare_short hsz hold hnew (Nat.lt_of_not_le hlt)
  refine ⟨⟨fun h => ?_, fun h => ?_⟩, ⟨fun h => ?_, fun h => ?_⟩⟩
  · rw [or_iff_not_imp_left]
    intro hlt
    obtain ⟨⟨ok, k', new'⟩, hr, hok, j, pt₁, hshares, hjn⟩ := hreturns hlt
    obtain ⟨-, hcount⟩ := h _ hr hok
    have hj : j = 0 := by
      by_contra hj
      obtain ⟨p, hram, -, hless⟩ := hshares.more hold (Nat.pos_of_ne_zero hj) hjn
      have := hcount p hram trivial
      omega
    obtain ⟨hmissing, taken, htook, hnil⟩ := hshares.first hj
    -- all free pages have gone to tables, so there was none
    have htaken : k.freelist = taken := by rw [htook.free, hnil, List.append_nil]
    have hempty : k.freelist = [] := by
      rw [List.eq_nil_iff_forall_not_mem]
      intro p hp
      have hone := htook.one (htaken ▸ hnodup) p (htaken ▸ hp)
      rw [hcount p (k.valid p hp) trivial, hzero p hp] at hone
      cases hone
    rw [hempty] at hmissing
    exact ⟨hempty, hmissing⟩
  · refine hfails.mono fun (ok, k', new') hf hok => ?_
    obtain ⟨hunmapped, j, pt₁, hshares, hj⟩ := hf hok
    refine ⟨hunmapped, fun p hp _ => ?_⟩
    obtain ⟨hempty, hmissing⟩ := h.resolve_left (hshares.not_enough hold hj)
    obtain ⟨-, taken, htook, -⟩ := hshares.first (hshares.eq_first (by rw [hempty]; exact hmissing))
    refine htook.same p hp fun hmem => ?_
    have : p ∈ k.freelist := by rw [htook.free]; exact List.mem_append_left _ hmem
    rw [hempty] at this
    cases this
  · rw [or_iff_not_imp_left]
    intro hlt
    obtain ⟨⟨ok, k', new'⟩, hr, hok, j, pt₁, hshares, hjn⟩ := hreturns hlt
    obtain ⟨-, hcount⟩ := h _ hr hok
    refine (hshares.first ?_).1
    by_contra hj
    obtain ⟨p, hram, hused, hless⟩ := hshares.more hold (Nat.pos_of_ne_zero hj) hjn
    have := hcount p hram hused
    omega
  · refine hfails.mono fun (ok, k', new') hf hok => ?_
    obtain ⟨hunmapped, j, pt₁, hshares, hj⟩ := hf hok
    refine ⟨hunmapped, fun p hp hused => ?_⟩
    have hmissing := h.resolve_left (hshares.not_enough hold hj)
    obtain ⟨-, taken, htook, -⟩ := hshares.first (hshares.eq_first hmissing)
    refine htook.same p hp fun hmem => hused ?_
    rw [htook.free]
    exact List.mem_append_left _ hmem

/-- An allocator with these free pages, next to the pages of the samples. -/
def fewPages (kend : Nat) (hk : KERNBASE ≤ kend) (free : List Nat)
    (hv : ∀ p ∈ free, p % PGSIZE = 0 ∧ kend ≤ p ∧ p < PHYSTOP) : Kmem :=
  ⟨kend, free, fun _ => 0, hk, hv⟩

def onePageFree : Kmem := fewPages (PHYSTOP - 8 * PGSIZE) (by decide) [PHYSTOP - 6 * PGSIZE] (by decide)

theorem textAndData_shared : SharedPages onePageFree textAndData (2 * PGSIZE) 2 where
  used i pte _ := textAndData_leaf (P := fun _ pte => onePageFree.Ram pte.pa ∧ pte.pa ∉ onePageFree.freelist)
    (by unfold Kmem.Ram; decide +kernel) i pte
  le := by decide
  mapped := by decide +kernel
  stops := .inl (by decide)

/-- With one free page not even the first page is shared. -/
theorem uvmshare_failure_clean_iff_text :
    onePageFree.freelist.length < (PageTable.empty 1).missing 0 ∧
      ShareFailsClean onePageFree textAndData (.empty 1) (2 * PGSIZE) (· ∉ onePageFree.freelist) := by
  have hmissing : onePageFree.freelist.length < (PageTable.empty 1).missing 0 := by decide
  refine ⟨hmissing, (uvmshare_failure_clean_iff (by decide) textAndData_shared (fun i _ => ?_) (by decide) ?_).2.mpr
    (.inr hmissing)⟩
  · exact AList.notMem_empty i
  · exact fun _ _ => rfl

/-- The table with pages of data from address 0 on, each with a physical page of its own. -/
def storeData (pt : PageTable) : Nat → PageTable
  | 0 => pt
  | n + 1 => (storeData pt n).storeLeaf n ⟨PHYSTOP - (n + 8) * PGSIZE, true, false, true⟩

theorem storeData_lookup {pt : PageTable} {n : Nat} (h : ∀ i, i < n → i / 512 ∈ pt.tabs) :
    (storeData pt n).tabs = pt.tabs ∧ ∀ i, i < n →
      (storeData pt n).leaves.lookup i = some ⟨PHYSTOP - (i + 8) * PGSIZE, true, false, true⟩ := by
  induction n with
  | zero => exact ⟨rfl, fun i hi => absurd hi (Nat.not_lt_zero i)⟩
  | succ n ih =>
      obtain ⟨htabs, hlook⟩ := ih fun i hi => h i (by omega)
      have hmem : n / 512 ∈ (storeData pt n).tabs := htabs ▸ h n (Nat.lt_succ_self n)
      refine ⟨?_, fun i hi => ?_⟩
      · rw [storeData, PageTable.storeLeaf, dif_pos hmem]
        exact htabs
      · rw [storeData, PageTable.storeLeaf_leaves hmem]
        by_cases hin : i = n
        · rw [hin, AList.lookup_insert]
        · rw [AList.lookup_insert_ne hin]
          exact hlook i (by omega)

def twoPagesFree : Kmem :=
  fewPages (PHYSTOP - 1024 * PGSIZE) (by decide) [PHYSTOP - 2 * PGSIZE, PHYSTOP - 4 * PGSIZE] (by decide)

theorem dataPage_spec {i stop : Nat} (hi : i < 1000) (hstop : stop = 557056 * PGSIZE) :
    (stop - (i + 8) * PGSIZE) % PGSIZE = 0 ∧ stop - 1024 * PGSIZE ≤ stop - (i + 8) * PGSIZE ∧
      stop - (i + 8) * PGSIZE < stop ∧ stop - (i + 8) * PGSIZE ≠ stop - 2 * PGSIZE ∧
      stop - (i + 8) * PGSIZE ≠ stop - 4 * PGSIZE := by
  simp only [PGSIZE] at *
  omega

theorem storeData_shared {pt : PageTable} {n : Nat} (hn : n ≤ 1000) (h : ∀ i, i < n → i / 512 ∈ pt.tabs) :
    SharedPages twoPagesFree (storeData pt n) (n * PGSIZE) n := by
  have hpages : pagesBelow 0 (n * PGSIZE) = n := by simp only [pagesBelow, PGSIZE]; omega
  have hlook := (storeData_lookup h).2
  refine ⟨fun i pte hi hpte => ?_, Nat.le_of_eq hpages.symm, fun i hi => ?_, .inl hpages.symm⟩
  · rw [hpages] at hi
    obtain rfl := Option.some.inj ((hlook i hi).symm.trans hpte)
    obtain ⟨halign, hlow, hhigh, hne, hne'⟩ := dataPage_spec (show i < 1000 by omega) (show PHYSTOP = 557056 * PGSIZE from rfl)
    refine ⟨⟨halign, hlow, hhigh⟩, ?_⟩
    simp only [twoPagesFree, fewPages, List.mem_cons, List.not_mem_nil, or_false, not_or]
    exact ⟨hne, hne'⟩
  · exact AList.lookup_isSome.mp (by rw [hlook i hi]; rfl)

/-- Tables of the third level for the first 1024 pages. -/
def twoTabs : PageTable := (((PageTable.empty 1).storeDir 0 2).storeTab 0 3).storeTab 1 4

theorem twoTabs_shared : SharedPages twoPagesFree (storeData twoTabs 513) (513 * PGSIZE) 513 := by
  refine storeData_shared (by decide) fun i hi => ?_
  have h01 : i / 512 = 0 ∨ i / 512 = 1 := by omega
  rcases h01 with h | h <;> rw [h] <;> decide

/-- Two free pages are enough for the tables of the first 512 pages, and the call fails at the next. -/
theorem uvmshare_failure_keeps_references :
    Returns (uvmshare twoPagesFree (storeData twoTabs 513) (.empty 1) (513 * PGSIZE)) fun (ok, k', _) => ok = false ∧
      ∃ p, twoPagesFree.Ram p ∧ p ∉ twoPagesFree.freelist ∧
        twoPagesFree.refCounter (pageNum p) < k'.refCounter (pageNum p) := by
  have hnew : ∀ i, i < USER_PAGES → i ∉ (PageTable.empty 1).leaves := fun i _ => AList.notMem_empty i
  have hlacks : twoPagesFree.freelist.length < (PageTable.empty 1).lacks 0 513 := by
    have hdirs : {0} ⊆ ((Finset.Ico 0 (0 + 513)).image (· / 512 / 512)).filter (· ∉ (PageTable.empty 1).dirs) := by
      simp only [Finset.singleton_subset_iff, Finset.mem_filter, Finset.mem_image, Finset.mem_Ico]
      exact ⟨⟨0, by decide, rfl⟩, AList.notMem_empty _⟩
    have htabs : {0, 1} ⊆ ((Finset.Ico 0 (0 + 513)).image (· / 512)).filter (· ∉ (PageTable.empty 1).tabs) := by
      simp only [Finset.insert_subset_iff, Finset.singleton_subset_iff, Finset.mem_filter, Finset.mem_image,
        Finset.mem_Ico]
      exact ⟨⟨⟨0, by decide, rfl⟩, AList.notMem_empty _⟩, ⟨512, by decide, rfl⟩, AList.notMem_empty _⟩
    exact Nat.add_le_add (Finset.card_le_card hdirs) (Finset.card_le_card htabs)
  refine (uvmshare_short (by decide) twoTabs_shared hnew hlacks).mono fun (ok, k', pt') ⟨hok, j, pt₁, h, hj⟩ => ?_
  refine ⟨hok, h.more twoTabs_shared (Nat.pos_of_ne_zero fun h0 => ?_) hj⟩
  exact absurd (h.first h0).1 (by decide)

/-! ## Indices of `ref_counter` -/

/-- The entry of `ref_counter` that is used for an address is in the array exactly if the address is below the size of RAM.
The addresses are pages of RAM, which starts at `KERNBASE`, and the null pointer of a `kalloc` that finds no free page.
Distinct addresses have distinct entries. -/
theorem ref_counter_index_iff {k : Kmem} {pa index : Nat} (h : RefUse k pa index) :
    (index < MAX_USER_PAGE_COUNT ↔ pa < PHYSTOP - KERNBASE) ∧ (k.Ram pa ∨ pa = 0) ∧
      ∀ qa index', RefUse k qa index' → qa ≠ pa → index' ≠ index := by
  rw [h.index_eq]
  refine ⟨pageNum_lt_iff pa, h.page, fun qa index' h' hne => ?_⟩
  rw [h'.index_eq]
  have haligned {p i : Nat} (hu : RefUse k p i) : p % PGSIZE = 0 := by
    rcases hu.page with hram | rfl
    · exact hram.1
    · rfl
  exact fun heq => hne (pageNum_inj (haligned h') (haligned h) heq)

/-- After `kinit` with two pages, `kalloc` uses entry 557055 of an array of 32768. -/
theorem ref_counter_overrun :
    ∃ k, kinit (PHYSTOP - 2 * PGSIZE) (by decide) = .ok k ∧ (kalloc k).1 = some (PHYSTOP - PGSIZE) ∧
      RefUse k (PHYSTOP - PGSIZE) 557055 ∧ ¬ 557055 < MAX_USER_PAGE_COUNT :=
  ⟨_, rfl, rfl, .kalloc, by decide⟩

theorem ref_counter_index_iff_two :
    ∃ k, kinit (PHYSTOP - 2 * PGSIZE) (by decide) = .ok k ∧
      RefUse k (PHYSTOP - 2 * PGSIZE) (pageNum (PHYSTOP - 2 * PGSIZE)) ∧
      ¬ pageNum (PHYSTOP - 2 * PGSIZE) < MAX_USER_PAGE_COUNT := by
  obtain ⟨k, hk⟩ : ∃ k, kinit (PHYSTOP - 2 * PGSIZE) (by decide) = .ok k := ⟨_, rfl⟩
  have huse : RefUse k (PHYSTOP - 2 * PGSIZE) (pageNum (PHYSTOP - 2 * PGSIZE)) := by
    cases hk
    exact .kfree rfl
  refine ⟨k, hk, huse, ?_⟩
  rw [(ref_counter_index_iff huse).1]
  decide

end Xv6Net.Vm
