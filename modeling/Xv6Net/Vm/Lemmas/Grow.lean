import Xv6Net.Vm.Grow
import Xv6Net.Vm.Lemmas.Exact

/-!
# Growing and shrinking the memory of one process

`Growing` is the invariant of the loop of `uvmalloc`. Whichever allocation fails, the pages that were mapped so far are
taken back one by one.
-/

namespace Xv6Net.Vm

open Kernel Lib

variable {k k' : Kmem} {pt pt' : PageTable} {i : Nat} {ps : List Nat} {j n : Nat}

/-! ## Pages are given back -/

/-- The pages `ps`, mapped from page `i` on, were unmapped and freed. -/
structure Frees (k : Kmem) (pt : PageTable) (k' : Kmem) (pt' : PageTable) (i : Nat) (ps : List Nat) : Prop where
  free : k'.freelist = ps.reverse ++ k.freelist
  held : ∀ q, q ∉ ps → Held k q → Held k' q
  pages : pt'.pages = pt.pages
  leaves : ∀ j, pt'.leaves.lookup j = if i ≤ j ∧ j < i + ps.length then none else pt.leaves.lookup j

theorem unmapLoop_frees (hn : i + ps.length ≤ USER_PAGES)
    (hlook : ∀ n (h : n < ps.length), ∃ pte, pt.leaves.lookup (i + n) = some pte ∧ pte.pa = ps[n])
    (hheld : ∀ p ∈ ps, Held k p) (hnd : (ps ++ k.freelist).Nodup) :
    Returns (unmapLoop k pt (i * PGSIZE) true ps.length) fun (k', pt') => Frees k pt k' pt' i ps := by
  have hloop : Returns (unmapLoop k pt (i * PGSIZE) true ps.length) fun r =>
      r.1.freelist = ps.reverse ++ k.freelist ∧ ∀ q, q ∉ ps → Held k q → Held r.1 q := by
    induction ps generalizing k pt i with
    | nil => exact .ok ⟨rfl, fun _ _ h => h⟩
    | cons p ps ih =>
        obtain ⟨pte, hpte, hpa⟩ := hlook 0 (Nat.zero_lt_succ _)
        obtain rfl : pte.pa = p := hpa
        have hmem : i ∈ pt.leaves := AList.lookup_isSome.mp (by rw [← Nat.add_zero i, hpte]; rfl)
        rw [List.cons_append, List.nodup_cons, List.mem_append, not_or] at hnd
        rw [List.length_cons] at hn
        obtain ⟨k₁, hk₁, hfree, hnodup, hkeep⟩ := (hheld _ List.mem_cons_self).kfree (List.nodup_append.mp hnd.2).2.1
        rw [Nat.add_zero] at hpte
        simp only [List.length_cons, unmapLoop, walk_present (show i < USER_PAGES by omega) hmem, hpte, bind, Except.bind,
          dropPage, if_pos, hk₁]
        rw [show i * PGSIZE + PGSIZE = (i + 1) * PGSIZE by rw [Nat.succ_mul]]
        have hne : ∀ q ∈ ps, q ≠ pte.pa := by
          rintro q hq rfl
          exact hnd.1.1 hq
        refine (ih (by omega) (fun n hlt => ?_) (fun q hq => ?_) ?_).mono fun r h => ⟨?_, fun q hq hh => ?_⟩
        · obtain ⟨pte', hpte', hpa'⟩ := hlook (n + 1) (Nat.succ_lt_succ hlt)
          refine ⟨pte', ?_, hpa'⟩
          rw [← hpte', show i + 1 + n = i + (n + 1) by omega]
          exact AList.lookup_erase_ne (by omega)
        · exact hkeep q (hne q hq) (hheld q (List.mem_cons_of_mem _ hq))
        · rw [hfree, List.nodup_append] at *
          obtain ⟨hps, hfl, hdisj⟩ := hnd.2
          refine ⟨hps, hnodup, fun a ha b hb => ?_⟩
          rcases List.mem_cons.mp hb with rfl | hb
          · exact hne a ha
          · exact hdisj a ha b hb
        · rw [h.1, hfree, List.reverse_cons, List.append_assoc]
          rfl
        · rw [List.mem_cons, not_or] at hq
          exact h.2 q hq.2 (hkeep q hq.1 hh)
  refine (hloop.and (unmapLoop_leaves (Nat.mul_mod_left ..))).mono ?_
  rintro ⟨k', pt'⟩ ⟨⟨hf, hk⟩, -, hpages, hleaves⟩
  refine ⟨hf, hk, hpages, fun j => ?_⟩
  rw [hleaves j, Nat.mul_div_cancel i (by decide)]

theorem uvmdealloc_frees {oldsz newsz : Nat} (hle : newsz ≤ oldsz) (hsz : oldsz ≤ TRAPFRAME)
    (hi : pgRoundUp newsz = i * PGSIZE) (hlen : pgRoundUp oldsz = (i + ps.length) * PGSIZE)
    (hlook : ∀ n (h : n < ps.length), ∃ pte, pt.leaves.lookup (i + n) = some pte ∧ pte.pa = ps[n])
    (hheld : ∀ p ∈ ps, Held k p) (hnd : (ps ++ k.freelist).Nodup) :
    Returns (uvmdealloc k pt oldsz newsz) fun (sz, k', pt') => sz = newsz ∧ Frees k pt k' pt' i ps := by
  have hnone : ps = [] → Frees k pt k pt i ps := by
    rintro rfl
    exact ⟨rfl, fun _ _ h => h, rfl, fun j => by rw [if_neg (by simp only [List.length_nil]; omega)]⟩
  have hzero : ¬ pgRoundUp newsz < pgRoundUp oldsz → ps = [] := by
    intro hge
    rw [hi, hlen, Nat.mul_lt_mul_right (by decide)] at hge
    exact List.length_eq_zero_iff.mp (by omega)
  unfold uvmdealloc
  split
  · rename_i hge
    obtain rfl : oldsz = newsz := by omega
    exact .ok ⟨rfl, hnone (hzero (Nat.lt_irrefl _))⟩
  · split
    · have hnp : (pgRoundUp oldsz - pgRoundUp newsz) / PGSIZE = ps.length := by
        rw [hi, hlen, ← Nat.sub_mul, Nat.mul_div_cancel _ (by decide), Nat.add_sub_cancel_left]
      have hrange : i + ps.length ≤ USER_PAGES := by
        have := (pgRoundUp_spec hsz).2.2.2
        rw [hlen] at this
        simp only [USER_PAGES, PGSIZE] at *
        omega
      dsimp only [uvmunmap]
      rw [hnp, hi, if_neg (by rw [Nat.mul_mod_left]; decide)]
      exact (unmapLoop_frees hrange hlook hheld hnd).bind fun r h => .ok ⟨rfl, h⟩
    · rename_i hge
      exact .ok ⟨rfl, hnone (hzero hge)⟩

/-! ## Pages in hand -/

/-- From `k₀` and `pt₀` on, the pages `ps` were taken from the free list and are held, and others became pages of the
table. -/
structure InHand (k₀ : Kmem) (pt₀ : PageTable) (ps : List Nat) (k : Kmem) (pt : PageTable) : Prop where
  nodup : (ps ++ k.freelist).Nodup
  held : ∀ p ∈ ps, Held k p
  keeps : ∀ q, Held k₀ q → Held k q
  aligned : ∀ p ∈ pt.pages, p % PGSIZE = 0
  tables : ∀ p ∈ pt.pages, p ∉ ps ∧ p ∉ k.freelist
  sub : ∀ p ∈ pt₀.pages, p ∈ pt.pages
  kept : ∀ p, p ∈ k₀.freelist ↔ p ∈ ps ∨ p ∈ k.freelist ∨ p ∈ pt.pages ∧ p ∉ pt₀.pages

namespace InHand

variable {k₀ : Kmem} {pt₀ : PageTable} {p : Nat}

theorem start (h : Sound k pt) : InHand k pt [] k pt where
  nodup := h.nodup
  held := nofun
  keeps _ hq := hq
  aligned := h.aligned
  tables p hp := ⟨nofun, h.tables p hp⟩
  sub _ hp := hp
  kept p := by simp

theorem took {taken : List Nat} (h : InHand k₀ pt₀ ps k pt) (ht : Took k k' taken) (hpages : pt'.pages = taken + pt.pages) :
    InHand k₀ pt₀ ps k' pt' := by
  have hnd := h.nodup
  rw [ht.free] at hnd
  obtain ⟨hps, hfree, hdisj⟩ := List.nodup_append.mp hnd
  obtain ⟨-, hfree', hdisj'⟩ := List.nodup_append.mp hfree
  have hnot : ∀ p ∈ pt.pages, p ∉ taken ∧ p ∉ k'.freelist := by
    intro p hp
    have := (h.tables p hp).2
    rwa [ht.free, List.mem_append, not_or] at this
  constructor
  · exact List.nodup_append.mpr ⟨hps, hfree', fun a ha b hb => hdisj a ha b (List.mem_append_right _ hb)⟩
  · exact fun p hp => ht.held (h.held p hp)
  · exact fun q hq => ht.held (h.keeps q hq)
  · intro p hp
    rw [hpages, Multiset.mem_add, Multiset.mem_coe] at hp
    exact hp.elim (fun hp => (ht.mem_ram hp).1) (h.aligned p)
  · intro p hp
    rw [hpages, Multiset.mem_add, Multiset.mem_coe] at hp
    rcases hp with hp | hp
    · exact ⟨fun hin => hdisj p hin p (List.mem_append_left _ hp) rfl, fun hin => hdisj' p hp p hin rfl⟩
    · exact ⟨(h.tables p hp).1, (hnot p hp).2⟩
  · intro p hp
    rw [hpages, Multiset.mem_add]
    exact .inr (h.sub p hp)
  · intro p
    have hnew : p ∈ taken → p ∉ pt₀.pages := fun hin hp => (hnot p (h.sub p hp)).1 hin
    rw [h.kept p, ht.free, hpages, Multiset.mem_add, Multiset.mem_coe, List.mem_append]
    tauto

theorem kalloc (h : InHand k₀ pt₀ ps k pt) (hk : kalloc k = (some p, k')) : InHand k₀ pt₀ (ps ++ [p]) k' pt := by
  have hnd := h.nodup
  obtain ⟨hheld, -, hfree⟩ := kalloc_held (List.nodup_append.mp hnd).2.1 hk
  have hp : p ∈ k.freelist := by rw [hfree]; exact List.mem_cons_self
  constructor
  · rwa [hfree, List.append_cons] at hnd
  · intro q hq
    rcases List.mem_append.mp hq with hq | hq
    · exact (h.held q hq).kalloc hk
    · rwa [List.mem_singleton.mp hq]
  · exact fun q hq => (h.keeps q hq).kalloc hk
  · exact h.aligned
  · intro q hq
    obtain ⟨hps, hnot⟩ := h.tables q hq
    rw [hfree, List.mem_cons, not_or] at hnot
    rw [List.mem_append, List.mem_singleton, not_or]
    exact ⟨⟨hps, hnot.1⟩, hnot.2⟩
  · exact h.sub
  · intro q
    rw [h.kept q, hfree, List.mem_cons, List.mem_append, List.mem_singleton]
    tauto

theorem not_held (h : InHand k₀ pt₀ ps k pt) (hp : p ∈ ps) : ¬ Held k₀ p :=
  fun hh => hh.not_free ((h.kept p).mpr (.inl hp))

/-- The last page is given back. -/
theorem kfree (h : InHand k₀ pt₀ (ps ++ [p]) k pt) : Returns (kfree k p) fun k' => InHand k₀ pt₀ ps k' pt := by
  have hin : p ∈ ps ++ [p] := List.mem_append_right _ (List.mem_singleton_self p)
  have hnd := h.nodup
  rw [← List.append_cons] at hnd
  obtain ⟨hps, hcons, hdisj⟩ := List.nodup_append.mp hnd
  obtain ⟨k', hk', hfree, -, hkeep⟩ := (h.held p hin).kfree (List.nodup_cons.mp hcons).2
  refine ⟨k', hk', ?_⟩
  constructor
  · rw [hfree]
    exact hnd
  · intro q hq
    exact hkeep q (hdisj q hq p List.mem_cons_self) (h.held q (List.mem_append_left _ hq))
  · intro q hq
    refine hkeep q ?_ (h.keeps q hq)
    rintro rfl
    exact h.not_held hin hq
  · exact h.aligned
  · intro q hq
    obtain ⟨hnot, hnot'⟩ := h.tables q hq
    rw [List.mem_append, List.mem_singleton, not_or] at hnot
    rw [hfree, List.mem_cons, not_or]
    exact ⟨hnot.1, hnot.2, hnot'⟩
  · exact h.sub
  · intro q
    rw [h.kept q, hfree, List.mem_cons, List.mem_append, List.mem_singleton]
    tauto

/-- All pages are given back. -/
theorem frees (h : InHand k₀ pt₀ ps k pt) (hf : Frees k pt k' pt' i ps) : InHand k₀ pt₀ [] k' pt' := by
  constructor
  · rw [List.nil_append, hf.free]
    exact ((List.reverse_perm ps).append_right k.freelist).nodup_iff.mpr h.nodup
  · exact nofun
  · exact fun q hq => hf.held q (fun hin => h.not_held hin hq) (h.keeps q hq)
  · rw [hf.pages]
    exact h.aligned
  · intro p hp
    rw [hf.pages] at hp
    rw [hf.free, List.mem_append, List.mem_reverse, not_or]
    exact ⟨nofun, h.tables p hp⟩
  · intro p hp
    rw [hf.pages]
    exact h.sub p hp
  · intro p
    rw [h.kept p, hf.free, hf.pages, List.mem_append, List.mem_reverse]
    simp only [List.not_mem_nil, false_or, or_assoc]

end InHand

/-! ## The loop of `uvmalloc` -/

/-- The loop has mapped the pages `ps` from page `i` on. -/
structure Growing (k₀ : Kmem) (pt₀ : PageTable) (i : Nat) (perm : Perm) (ps : List Nat) (k : Kmem) (pt : PageTable)
    (mem : Memory) : Prop extends InHand k₀ pt₀ ps k pt where
  new : ∀ n (h : n < ps.length), pt.leaves.lookup (i + n) = some ⟨ps[n], perm⟩
  old : ∀ j, j < i ∨ i + ps.length ≤ j → pt.leaves.lookup j = pt₀.leaves.lookup j
  zero : ∀ p ∈ ps, ∀ b < PGSIZE, mem (p + b) = 0

theorem fillPage_self (mem : Memory) (p : Nat) (v : UInt8) {b : Nat} (hb : b < PGSIZE) : fillPage mem p v (p + b) = v := by
  rw [fillPage, if_pos (by omega)]

/-- The bytes of another page. -/
theorem fillPage_of_ne {mem : Memory} {p q b : Nat} (v : UInt8) (hp : p % PGSIZE = 0) (hq : q % PGSIZE = 0) (hne : q ≠ p)
    (hb : b < PGSIZE) : fillPage mem p v (q + b) = mem (q + b) := by
  rw [fillPage, if_neg]
  simp only [PGSIZE] at *
  omega

namespace Growing

variable {k₀ k₁ k₂ : Kmem} {pt₀ pt₂ : PageTable} {perm : Perm} {mem : Memory} {p : Nat} {store : Store}

theorem start (h : Sound k pt) (i : Nat) (perm : Perm) (mem : Memory) : Growing k pt i perm [] k pt mem where
  toInHand := .start h
  new _ h := absurd h (Nat.not_lt_zero _)
  old _ _ := rfl
  zero := nofun

section

variable (h : Growing k₀ pt₀ i perm ps k pt mem)
include h

/-- The next page is mapped. -/
theorem push (hstore : store.Local) (hk : kalloc k = (some p, k₁))
    (hm : MapsExactly k₁ pt k₂ pt₂ (i + ps.length) ⟨p, perm⟩ true) :
    Growing k₀ pt₀ i perm (ps ++ [p]) k₂ pt₂ (store pt₂ (fillPage (fillPage mem p 5) p 0)) := by
  obtain ⟨taken, htook, hpages⟩ := hm.took
  have hhand := (h.toInHand.kalloc hk).took htook hpages
  have hleaves := hm.stored rfl
  refine ⟨hhand, fun n hn => ?_, fun j hj => ?_, fun q hq b hb => ?_⟩
  · rw [hleaves]
    rw [List.length_append, List.length_singleton] at hn
    by_cases hlast : n = ps.length
    · subst hlast
      rw [AList.lookup_insert, List.getElem_concat_length rfl]
    · rw [AList.lookup_insert_ne (by omega), h.new n (by omega), List.getElem_append_left]
  · rw [List.length_append, List.length_singleton] at hj
    rw [hleaves, AList.lookup_insert_ne (by omega)]
    exact h.old j (by omega)
  · -- tables are stored in other pages
    have hq' := hhand.held q hq
    have hlocal : ∀ t ∈ pt₂.pages, ¬ (t ≤ q + b ∧ q + b < t + PGSIZE) := by
      intro t ht hin
      have htq : t ≠ q := fun he => (hhand.tables t ht).1 (he ▸ hq)
      have hta := hhand.aligned t ht
      have hqa := hq'.valid.1
      simp only [PGSIZE] at *
      omega
    rw [hstore pt₂ _ _ hlocal]
    by_cases hqp : q = p
    · subst hqp
      exact fillPage_self _ _ _ hb
    · have hin : q ∈ ps := by
        rcases List.mem_append.mp hq with hq | hq
        · exact hq
        · exact absurd (List.mem_singleton.mp hq) hqp
      have hp' := hhand.held p (List.mem_append_right _ (List.mem_singleton_self p))
      rw [fillPage_of_ne 0 hp'.valid.1 hq'.valid.1 hqp hb, fillPage_of_ne 5 hp'.valid.1 hq'.valid.1 hqp hb]
      exact h.zero q hin b hb

/-- What was mapped is taken back. -/
theorem undo (hi : i + ps.length ≤ USER_PAGES) (hnew : ∀ j, i ≤ j → j < USER_PAGES → j ∉ pt₀.leaves) :
    Returns (uvmdealloc k pt ((i + ps.length) * PGSIZE) (i * PGSIZE)) fun (_, k', pt') =>
      InHand k₀ pt₀ [] k' pt' ∧ ∀ j, pt'.leaves.lookup j = pt₀.leaves.lookup j := by
  refine (uvmdealloc_frees (Nat.mul_le_mul_right _ (by omega)) ?_ (pgRoundUp_mul (by omega)) (pgRoundUp_mul hi)
    (fun n hn => ⟨_, h.new n hn, rfl⟩) h.held h.nodup).mono fun (_, k', pt') ⟨_, hf⟩ => ⟨h.toInHand.frees hf, fun j => ?_⟩
  · simp only [USER_PAGES, TRAPFRAME, TRAMPOLINE, MAXVA, PGSIZE] at *
    omega
  · rw [hf.leaves j]
    split
    · exact (AList.lookup_eq_none.mpr (hnew j (by omega) (by omega))).symm
    · exact h.old j (by omega)

/-- The loop of `uvmalloc` maps all of its pages, if there are free pages for them and for the tables, or none. -/
theorem loop (hstore : store.Local) (hn : i + ps.length + n ≤ USER_PAGES)
    (hnew : ∀ j, i ≤ j → j < USER_PAGES → j ∉ pt₀.leaves) :
    Returns (allocLoop store mem k pt ((i + ps.length) * PGSIZE) (i * PGSIZE) perm n) fun (r, k', pt') =>
      n + pt.lacks (i + ps.length) n ≤ k.freelist.length ∧
          (∃ mem' ps', r = some mem' ∧ ps'.length = ps.length + n ∧ Growing k₀ pt₀ i perm ps' k' pt' mem') ∨
        k.freelist.length < n + pt.lacks (i + ps.length) n ∧ r = none ∧ InHand k₀ pt₀ [] k' pt' ∧
          ∀ j, pt'.leaves.lookup j = pt₀.leaves.lookup j := by
  induction n generalizing k pt mem ps with
  | zero => exact .ok (.inl ⟨by rw [pt.lacks_zero]; exact Nat.zero_le _, mem, ps, rfl, rfl, h⟩)
  | succ n ih =>
      unfold allocLoop
      rcases hk : kalloc k with ⟨_ | p, k₁⟩
      · have hnone : Growing k₀ pt₀ i perm ps k₁ pt mem :=
          ⟨h.toInHand.took (.kalloc_none hk) (zero_add _).symm, h.new, h.old, h.zero⟩
        have hshort : k.freelist.length = 0 := List.length_eq_zero_iff.mpr (freelist_eq_nil hk)
        refine (hnone.undo (by omega) hnew).bind ?_
        rintro ⟨_, k₂, pt₂⟩ hr
        exact .ok (.inr ⟨by omega, rfl, hr⟩)
      · have hlength : k.freelist.length = k₁.freelist.length + 1 := by rw [(kalloc_eq_some hk).1, List.length_cons]
        have hfresh : i + ps.length ∉ pt.leaves := by
          rw [← AList.lookup_eq_none, h.old _ (by omega), AList.lookup_eq_none]
          exact hnew _ (by omega) (by omega)
        refine (mappages_exactly (show i + ps.length < USER_PAGES by omega) hfresh).bind ?_
        rintro ⟨b, k₂, pt₂⟩ hm
        cases b with
        | true =>
            have hpush := h.push hstore hk hm
            have hlen : (ps ++ [p]).length = ps.length + 1 := by simp
            have hnext := ih hpush (by rw [hlen]; omega)
            rw [hlen, ← Nat.add_assoc, Nat.succ_mul] at hnext
            have hlacks := hm.takes.lacks n
            have hfree := hm.takes.free rfl
            refine hnext.mono ?_
            rintro ⟨r, k', pt'⟩ (⟨henough, mem', ps', hr, hlen', hgrow⟩ | ⟨hshort, hr⟩)
            · exact .inl ⟨by omega, mem', ps', hr, by omega, hgrow⟩
            · exact .inr ⟨by omega, hr⟩
        | false =>
            -- the page that was not mapped is given back first
            obtain ⟨taken, htook, hpages⟩ := hm.took
            refine (((h.toInHand.kalloc hk).took htook hpages).kfree).bind fun k₃ hhand => ?_
            have hback : Growing k₀ pt₀ i perm ps k₃ pt₂ mem := by
              refine ⟨hhand, ?_, ?_, h.zero⟩ <;> rw [hm.failed rfl]
              · exact h.new
              · exact h.old
            have hshort := hm.takes.short rfl
            have hone : pt.lacks (i + ps.length) 1 ≤ pt.lacks (i + ps.length) (n + 1) := PageTable.lacks_mono (by omega)
            rw [pt.lacks_one] at hone
            refine (hback.undo (by omega) hnew).bind ?_
            rintro ⟨_, k₄, pt₄⟩ hr
            exact .ok (.inr ⟨by omega, rfl, hr⟩)

end

end Growing

/-! ## Growing -/

section Growth

variable {mem : Memory} {store : Store} {oldsz newsz : Nat} {w x : Bool} {perm : Perm}

theorem mul_lt_of_lt {i sz : Nat} (h : i * PGSIZE < sz + PGSIZE) (hj : j < i) : j * PGSIZE < sz := by
  have hnext := Nat.mul_le_mul_right PGSIZE (Nat.succ_le_of_lt hj)
  rw [Nat.succ_mul] at hnext
  omega

theorem lt_add_pagesBelow {i sz : Nat} (h : i ≤ j) : j < i + pagesBelow (i * PGSIZE) sz ↔ j * PGSIZE < sz := by
  simp only [pagesBelow, PGSIZE]
  omega

/-- What `uvmalloc` leaves behind, `i` being the first new page. -/
theorem uvmallocTo_growing (hstore : store.Local) (hs : Sound k pt) (hc : pt.Covers oldsz) (hle : oldsz ≤ newsz)
    (hlt : newsz < TRAPFRAME) (hi : pgRoundUp oldsz = i * PGSIZE) :
    Returns (uvmallocTo store mem k pt oldsz newsz w x) fun (sz, r, k', pt') =>
      pt.need oldsz newsz ≤ k.freelist.length ∧
          (∃ mem' ps, r = some mem' ∧ sz = newsz ∧ ps.length = pagesBelow (pgRoundUp oldsz) newsz ∧
            Growing k pt i ⟨w, x, true⟩ ps k' pt' mem') ∨
        k.freelist.length < pt.need oldsz newsz ∧ sz = 0 ∧ InHand k pt [] k' pt' ∧
          ∀ j, pt'.leaves.lookup j = pt.leaves.lookup j := by
  obtain ⟨-, hup, -, -⟩ := pgRoundUp_spec (show oldsz ≤ TRAPFRAME by omega)
  have hnew : ∀ j, i ≤ j → j < USER_PAGES → j ∉ pt.leaves := by
    intro j hj hju hmem
    have := (hc j hju).mp hmem
    simp only [PGSIZE] at *
    omega
  have hn : i + ([] : List Nat).length + pagesBelow (pgRoundUp oldsz) newsz ≤ USER_PAGES := by
    obtain ⟨-, -, -, hmax⟩ := pgRoundUp_spec (show oldsz ≤ TRAPFRAME by omega)
    rw [hi] at hmax ⊢
    simp only [List.length_nil, pagesBelow, USER_PAGES, TRAPFRAME, TRAMPOLINE, MAXVA, PGSIZE] at *
    omega
  unfold uvmallocTo
  rw [if_neg (by omega)]
  have hloop := (Growing.start hs i ⟨w, x, true⟩ mem).loop hstore hn hnew
  rw [List.length_nil, Nat.add_zero, ← hi] at hloop
  rw [PageTable.need, hi, Nat.mul_div_cancel i (by decide), ← hi]
  refine hloop.bind ?_
  rintro ⟨r, k', pt'⟩ hr
  refine .ok ?_
  rcases hr with ⟨henough, mem', ps, rfl, hlen, hgrow⟩ | ⟨hshort, rfl, hr⟩
  · exact .inl ⟨henough, mem', ps, rfl, rfl, by rw [hlen, Nat.zero_add], hgrow⟩
  · exact .inr ⟨hshort, rfl, hr⟩

/-- A new page is one of those that the loop has mapped. -/
theorem Growing.page {k₀ : Kmem} {pt₀ : PageTable} {pte : Pte} (h : Growing k₀ pt₀ i perm ps k pt mem)
    (hnew : j ∉ pt₀.leaves) (hj : i ≤ j) (hpte : pt.leaves.lookup j = some pte) :
    ∃ n, ∃ hn : n < ps.length, j = i + n ∧ pte = ⟨ps[n], perm⟩ := by
  obtain ⟨n, rfl⟩ := Nat.exists_eq_add_of_le hj
  by_cases hn : n < ps.length
  · exact ⟨n, hn, rfl, Option.some.inj (hpte.symm.trans (h.new n hn))⟩
  · rw [h.old _ (by omega), AList.lookup_eq_none.mpr hnew] at hpte
    cases hpte

theorem Growing.grown {mem' : Memory} (h : Growing k pt i perm ps k' pt' mem') (hc : pt.Covers oldsz) (hle : oldsz ≤ newsz)
    (hlt : newsz < TRAPFRAME) (hi : pgRoundUp oldsz = i * PGSIZE) (hlen : ps.length = pagesBelow (pgRoundUp oldsz) newsz) :
    Grown k pt pt' mem' oldsz newsz perm := by
  obtain ⟨-, hup, hup', -⟩ := pgRoundUp_spec (show oldsz ≤ TRAPFRAME by omega)
  have hnew : ∀ {j}, pgRoundUp oldsz ≤ j * PGSIZE → j < USER_PAGES → i ≤ j ∧ j ∉ pt.leaves := by
    intro j hj hju
    refine ⟨?_, fun hmem => ?_⟩
    · rw [hi] at hj
      exact Nat.le_of_mul_le_mul_right hj (by decide)
    · have := (hc j hju).mp hmem
      omega
  rw [hi] at hlen hup hup'
  have habove : ∀ j, i ≤ j → (j < i + ps.length ↔ j * PGSIZE < newsz) := fun j hj => hlen ▸ lt_add_pagesBelow hj
  constructor
  · intro j hj
    by_cases hij : i ≤ j
    · rw [← habove j hij]
      by_cases hin : j < i + ps.length
      · obtain ⟨n, rfl⟩ := Nat.exists_eq_add_of_le hij
        have hmem : i + n ∈ pt'.leaves := AList.lookup_isSome.mp (by rw [h.new n (by omega)]; rfl)
        exact ⟨fun _ => hin, fun _ => hmem⟩
      · rw [PageTable.mem_congr (h.old j (by omega)), hc j hj]
        have : ¬ j * PGSIZE < newsz := fun hlt => hin ((habove j hij).mpr hlt)
        exact ⟨fun hlt => absurd (hlt.trans_le hle) this, fun hlt => absurd hlt hin⟩
    · rw [PageTable.mem_congr (h.old j (by omega)), hc j hj]
      have := mul_lt_of_lt hup' (Nat.lt_of_not_le hij)
      exact ⟨fun hlt => hlt.trans_le hle, fun _ => this⟩
  · intro j hj
    refine h.old j ?_
    rw [hi, Nat.mul_lt_mul_right (by decide)] at hj
    refine hj.imp_right fun hju => ?_
    have hn : i + ps.length ≤ USER_PAGES := by
      simp only [pagesBelow, USER_PAGES, TRAPFRAME, TRAMPOLINE, MAXVA, PGSIZE] at *
      omega
    omega
  · intro j pte hj hju hpte
    obtain ⟨hij, hnot⟩ := hnew hj hju
    obtain ⟨n, hn, -, rfl⟩ := h.page hnot hij hpte
    exact ⟨(h.kept _).mpr (.inl (List.getElem_mem hn)), rfl⟩
  · intro j pte hj hju hpte
    obtain ⟨hij, hnot⟩ := hnew hj hju
    obtain ⟨n, hn, -, rfl⟩ := h.page hnot hij hpte
    exact h.zero _ (List.getElem_mem hn)
  · intro j l p q hj hju hl hlu hp hq hpq
    obtain ⟨hij, hnot⟩ := hnew hj hju
    obtain ⟨hil, hnot'⟩ := hnew hl hlu
    obtain ⟨n, hn, rfl, rfl⟩ := h.page hnot hij hp
    obtain ⟨m, hm, rfl, rfl⟩ := h.page hnot' hil hq
    rw [(List.nodup_append.mp h.nodup).1.getElem_inj_iff.mp hpq]

theorem InHand.restored {k₀ : Kmem} {pt₀ : PageTable} (h : InHand k₀ pt₀ [] k pt)
    (hl : ∀ j, pt.leaves.lookup j = pt₀.leaves.lookup j) : Restored k₀ pt₀ k pt where
  mappings := hl
  nodup := h.nodup
  freed p hp := ((h.kept p).mp hp).elim nofun (Or.imp_right And.left)

end Growth

/-! ## The memory of a process that shares none -/

/-- The physical pages of the pages `i` to `i + n - 1`. -/
def PageTable.pas (pt : PageTable) (i n : Nat) : List Nat :=
  (List.range n).map fun m => ((pt.leaves.lookup (i + m)).map Pte.pa).getD 0

namespace Sole

variable {sz oldsz newsz : Nat} {perm : Perm} {mem : Memory}

theorem restored (h : Sole k pt sz) (hr : InHand k pt [] k' pt') (hl : ∀ j, pt'.leaves.lookup j = pt.leaves.lookup j) :
    Sole k' pt' sz where
  nodup := hr.nodup
  aligned := hr.aligned
  tables p hp := (hr.tables p hp).2
  covers i hi := (PageTable.mem_congr (hl i)).trans (h.covers i hi)
  held i pte hi hpte := hr.keeps _ (h.held i pte hi (hl i ▸ hpte))
  apart i pte hi hpte hmem := by
    rw [hl] at hpte
    by_cases hold : pte.pa ∈ pt.pages
    · exact h.apart i pte hi hpte hold
    · exact (h.held i pte hi hpte).not_free ((hr.kept _).mpr (.inr (.inr ⟨hmem, hold⟩)))
  distinct i j p q hi hj hp hq := h.distinct i j p q hi hj (hl i ▸ hp) (hl j ▸ hq)

/-- The pages below the size are mapped, and they are pages of memory that differ from one another. -/
theorem pages_le (h : Sole k pt sz) (hn : n ≤ USER_PAGES) (hsz : ∀ i, i < n → i * PGSIZE < sz) :
    n ≤ PHYSTOP / PGSIZE - KERNBASE / PGSIZE := by
  have hmem : ∀ i, i < n → ∃ pte, pt.leaves.lookup i = some pte := fun i hi =>
    Option.isSome_iff_exists.mp (AList.lookup_isSome.mpr ((h.covers i (by omega)).mpr (hsz i hi)))
  have : Nonempty Pte := ⟨⟨0, false, false, false⟩⟩
  choose! pte hpte using hmem
  have hcard := Finset.card_le_card_of_injOn (s := Finset.range n)
    (t := Finset.Ico (KERNBASE / PGSIZE) (PHYSTOP / PGSIZE)) (fun i => (pte i).pa / PGSIZE) ?_ ?_
  · rwa [Finset.card_range, Nat.card_Ico] at hcard
  · intro i hi
    have hi := Finset.mem_range.mp (Finset.mem_coe.mp hi)
    obtain ⟨-, hlow, hhigh⟩ := (h.held i _ (by omega) (hpte i hi)).valid
    rw [Finset.mem_coe, Finset.mem_Ico]
    exact ⟨Nat.div_le_div_right (k.kernbase_le.trans hlow), Nat.div_lt_of_lt_mul hhigh⟩
  · intro i hi j hj hij
    have hi := Finset.mem_range.mp (Finset.mem_coe.mp hi)
    have hj := Finset.mem_range.mp (Finset.mem_coe.mp hj)
    have hia := (h.held i _ (by omega) (hpte i hi)).valid.1
    have hja := (h.held j _ (by omega) (hpte j hj)).valid.1
    refine h.distinct i j _ _ (by omega) (by omega) (hpte i hi) (hpte j hj) ?_
    have hij : (pte i).pa / PGSIZE = (pte j).pa / PGSIZE := hij
    rw [← Nat.div_add_mod (pte i).pa PGSIZE, ← Nat.div_add_mod (pte j).pa PGSIZE, hia, hja, hij]

/-- A process is never larger than the memory of the machine. -/
theorem size_le (h : Sole k pt sz) : sz ≤ PHYSTOP - KERNBASE := by
  have hram : PHYSTOP - KERNBASE = 32768 * PGSIZE := rfl
  by_contra hlt
  have hpages := h.pages_le (n := 32769) (by decide) fun i hi => by
    have := Nat.mul_le_mul_right PGSIZE (Nat.le_of_lt_succ hi)
    omega
  exact absurd hpages (by decide)

/-- The memory after `uvmalloc` is again the process's own. -/
theorem grown (h : Sole k pt oldsz) (hg : Growing k pt i perm ps k' pt' mem) (hle : oldsz ≤ newsz) (hlt : newsz < TRAPFRAME)
    (hi : pgRoundUp oldsz = i * PGSIZE) (hlen : ps.length = pagesBelow (pgRoundUp oldsz) newsz) : Sole k' pt' newsz := by
  have hgrown := hg.grown h.covers hle hlt hi hlen
  -- a page is an old one, which is held still, or one of the new ones
  have hcases : ∀ j pte, j < USER_PAGES → pt'.leaves.lookup j = some pte →
      pt.leaves.lookup j = some pte ∨ pgRoundUp oldsz ≤ j * PGSIZE ∧ pte.pa ∈ ps := by
    intro j pte hj hpte
    by_cases hlow : j * PGSIZE < pgRoundUp oldsz
    · exact .inl ((hgrown.old j (.inl hlow)).symm.trans hpte)
    · have hhigh := Nat.le_of_not_lt hlow
      refine .inr ⟨hhigh, ?_⟩
      have hij : i ≤ j := by
        rw [hi] at hhigh
        exact Nat.le_of_mul_le_mul_right hhigh (by decide)
      have hnot : j ∉ pt.leaves := by
        intro hmem
        have := (h.covers j hj).mp hmem
        have := (pgRoundUp_spec (show oldsz ≤ TRAPFRAME by omega)).2.1
        omega
      obtain ⟨n, hn, -, rfl⟩ := hg.page hnot hij hpte
      exact List.getElem_mem hn
  constructor
  · exact ⟨(List.nodup_append.mp hg.nodup).2.1, hg.aligned, fun p hp => (hg.tables p hp).2⟩
  · exact hgrown.covers
  · intro j pte hj hpte
    rcases hcases j pte hj hpte with hold | ⟨-, hin⟩
    · exact hg.keeps _ (h.held j pte hj hold)
    · exact hg.held _ hin
  · intro j pte hj hpte hmem
    rcases hcases j pte hj hpte with hold | ⟨-, hin⟩
    · by_cases hbefore : pte.pa ∈ pt.pages
      · exact h.apart j pte hj hold hbefore
      · exact (h.held j pte hj hold).not_free ((hg.kept _).mpr (.inr (.inr ⟨hmem, hbefore⟩)))
    · exact (hg.tables _ hmem).1 hin
  · intro a b p q ha hb hp hq hpq
    rcases hcases a p ha hp with holda | ⟨hhigha, hina⟩
    · rcases hcases b q hb hq with holdb | ⟨-, hinb⟩
      · exact h.distinct a b p q ha hb holda holdb hpq
      · exact absurd (h.held a p ha holda) (hg.not_held (hpq ▸ hinb))
    · rcases hcases b q hb hq with holdb | ⟨hhighb, -⟩
      · exact absurd (h.held b q hb holdb) (hg.not_held (hpq ▸ hina))
      · exact hgrown.distinct a b p q hhigha ha hhighb hb hp hq hpq

theorem pas_spec (hmem : ∀ m, m < n → i + m ∈ pt.leaves) :
    (pt.pas i n).length = n ∧ ∀ m (hm : m < (pt.pas i n).length),
      ∃ pte, pt.leaves.lookup (i + m) = some pte ∧ pte.pa = (pt.pas i n)[m] := by
  have hlen : (pt.pas i n).length = n := by simp [PageTable.pas]
  refine ⟨hlen, fun m hm => ?_⟩
  obtain ⟨pte, hpte⟩ := Option.isSome_iff_exists.mp (AList.lookup_isSome.mpr (hmem m (hlen ▸ hm)))
  have hget : (pt.pas i n)[m] = ((pt.leaves.lookup (i + m)).map Pte.pa).getD 0 := by
    have hm' : m < (List.range n).length := by rw [List.length_range]; exact hlen ▸ hm
    exact (List.getElem_map _).trans (congrArg (fun m => ((pt.leaves.lookup (i + m)).map Pte.pa).getD 0)
      (List.getElem_range hm'))
  exact ⟨pte, hpte, by rw [hget, hpte]; rfl⟩

theorem mem_pas {p : Nat} (hmem : ∀ m, m < n → i + m ∈ pt.leaves) :
    p ∈ pt.pas i n ↔ ∃ m pte, m < n ∧ pt.leaves.lookup (i + m) = some pte ∧ pte.pa = p := by
  obtain ⟨hlen, hpas⟩ := pas_spec hmem
  constructor
  · intro hp
    obtain ⟨m, hm, rfl⟩ := List.getElem_of_mem hp
    obtain ⟨pte, hpte, hpa⟩ := hpas m hm
    exact ⟨m, pte, hlen ▸ hm, hpte, hpa⟩
  · rintro ⟨m, pte, hm, hpte, rfl⟩
    have hm' : m < (pt.pas i n).length := hlen.symm ▸ hm
    obtain ⟨pte', hpte', hpa⟩ := hpas m hm'
    obtain rfl := Option.some.inj (hpte.symm.trans hpte')
    rw [hpa]
    exact List.getElem_mem hm'

theorem pas_nodup (h : Sole k pt sz) (hn : i + n ≤ USER_PAGES) (hmem : ∀ m, m < n → i + m ∈ pt.leaves) :
    (pt.pas i n ++ k.freelist).Nodup := by
  refine List.nodup_append.mpr ⟨?_, h.nodup, ?_⟩
  · refine List.Nodup.map_on ?_ List.nodup_range
    intro a ha b hb hab
    have ha := List.mem_range.mp ha
    have hb := List.mem_range.mp hb
    obtain ⟨p, hp⟩ := Option.isSome_iff_exists.mp (AList.lookup_isSome.mpr (hmem a ha))
    obtain ⟨q, hq⟩ := Option.isSome_iff_exists.mp (AList.lookup_isSome.mpr (hmem b hb))
    rw [hp, hq] at hab
    have := h.distinct (i + a) (i + b) p q (by omega) (by omega) hp hq hab
    omega
  · rintro a ha b hb rfl
    obtain ⟨m, pte, hm, hpte, rfl⟩ := (mem_pas hmem).mp ha
    exact (h.held _ pte (by omega) hpte).not_free hb

/-- The pages `i` to `i + n - 1` of the process were freed. -/
theorem frees (h : Sole k pt sz) (hn : i + n ≤ USER_PAGES) (hmem : ∀ m, m < n → i + m ∈ pt.leaves)
    (hf : Frees k pt k' pt' i (pt.pas i n)) (hc : pt'.Covers newsz) : Sole k' pt' newsz := by
  obtain ⟨hlen, -⟩ := pas_spec hmem
  -- what is left was there before, and is none of the pages that were freed
  have hleft : ∀ j pte, j < USER_PAGES → pt'.leaves.lookup j = some pte →
      pt.leaves.lookup j = some pte ∧ pte.pa ∉ pt.pas i n := by
    intro j pte hj hpte
    rw [hf.leaves j, hlen] at hpte
    split at hpte
    · cases hpte
    · refine ⟨hpte, fun hin => ?_⟩
      obtain ⟨m, pte', hm, hpte', hpa⟩ := (mem_pas hmem).mp hin
      have := h.distinct (i + m) j pte' pte (by omega) hj hpte' hpte hpa
      omega
  constructor
  · constructor
    · rw [hf.free]
      exact ((List.reverse_perm _).append_right k.freelist).nodup_iff.mpr (h.pas_nodup hn hmem)
    · rw [hf.pages]
      exact h.aligned
    · intro p hp
      rw [hf.pages] at hp
      rw [hf.free, List.mem_append, List.mem_reverse, not_or]
      refine ⟨fun hin => ?_, h.tables p hp⟩
      obtain ⟨m, pte, hm, hpte, rfl⟩ := (mem_pas hmem).mp hin
      exact h.apart _ pte (by omega) hpte hp
  · exact hc
  · intro j pte hj hpte
    obtain ⟨hpte, hnot⟩ := hleft j pte hj hpte
    exact hf.held _ hnot (h.held j pte hj hpte)
  · intro j pte hj hpte
    rw [hf.pages]
    exact h.apart j pte hj (hleft j pte hj hpte).1
  · intro a b p q ha hb hp hq
    exact h.distinct a b p q ha hb (hleft a p ha hp).1 (hleft b q hb hq).1

/-- `uvmdealloc` frees the pages above the new size. -/
theorem shrink (h : Sole k pt oldsz) (hlt : newsz < oldsz) (hsz : oldsz ≤ TRAPFRAME) :
    Returns (uvmdealloc k pt oldsz newsz) fun (sz, k', pt') =>
      sz = newsz ∧ Shrunk k pt k' pt' oldsz newsz ∧ Sole k' pt' newsz := by
  obtain ⟨hnew0, hnewle, hnewlt, -⟩ := pgRoundUp_spec (show newsz ≤ TRAPFRAME by omega)
  obtain ⟨hold0, holdle, holdlt, hmax⟩ := pgRoundUp_spec hsz
  obtain ⟨i, hi⟩ : ∃ i, pgRoundUp newsz = i * PGSIZE := ⟨_, (Nat.div_mul_cancel (Nat.dvd_of_mod_eq_zero hnew0)).symm⟩
  obtain ⟨l, hl⟩ : ∃ l, pgRoundUp oldsz = l * PGSIZE := ⟨_, (Nat.div_mul_cancel (Nat.dvd_of_mod_eq_zero hold0)).symm⟩
  have hlu : l ≤ USER_PAGES := by
    rw [hl] at hmax
    simp only [USER_PAGES, PGSIZE] at *
    omega
  have hil : i ≤ l := by
    by_contra hgt
    have := mul_lt_of_lt (hi ▸ hnewlt) (Nat.lt_of_not_le hgt)
    omega
  obtain ⟨n, rfl⟩ := Nat.exists_eq_add_of_le hil
  have hmem : ∀ m, m < n → i + m ∈ pt.leaves := by
    intro m hm
    exact (h.covers _ (by omega)).mpr (mul_lt_of_lt (hl ▸ holdlt) (by omega))
  obtain ⟨hlen, hpas⟩ := pas_spec hmem
  have hheld : ∀ p ∈ pt.pas i n, Held k p := by
    intro p hp
    obtain ⟨m, pte, hm, hpte, rfl⟩ := (mem_pas hmem).mp hp
    exact h.held _ pte (by omega) hpte
  have hdealloc := uvmdealloc_frees (Nat.le_of_lt hlt) hsz hi (by rw [hlen]; exact hl) hpas hheld (h.pas_nodup hlu hmem)
  refine (hdealloc.and (uvmdealloc_covers hsz h.covers)).mono ?_
  rintro ⟨sz, k', pt'⟩ ⟨⟨hsz', hf⟩, hc⟩
  obtain rfl : sz = newsz := hsz'
  refine ⟨rfl, ⟨hc, fun j hj => ?_, ?_, fun p => ?_⟩, h.frees hlu hmem hf hc⟩
  · rw [hf.leaves j, hlen, if_neg]
    rw [hi, Nat.mul_lt_mul_right (by decide)] at hj
    omega
  · exact (h.frees hlu hmem hf hc).nodup
  · rw [hf.free, List.mem_append, List.mem_reverse, mem_pas hmem, or_comm]
    refine or_congr_right ⟨?_, ?_⟩
    · rintro ⟨m, pte, hm, hpte, hpa⟩
      refine ⟨i + m, pte, ?_, ?_, hpte, hpa⟩
      · rw [hi]
        exact Nat.mul_le_mul_right _ (by omega)
      · rw [hl, Nat.mul_lt_mul_right (by decide)]
        omega
    · rintro ⟨j, pte, hlow, hhigh, hpte, hpa⟩
      rw [hi] at hlow
      rw [hl, Nat.mul_lt_mul_right (by decide)] at hhigh
      obtain ⟨m, rfl⟩ := Nat.exists_eq_add_of_le (Nat.le_of_mul_le_mul_right hlow (by decide))
      exact ⟨m, pte, by omega, hpte, hpa⟩

end Sole

end Xv6Net.Vm
