import Mathlib.Algebra.Order.BigOperators.Group.List
import Mathlib.Algebra.Order.Group.Nat
import Xv6Net.Proc.Lemmas.Grow
import Xv6Net.Proc.Lemmas.Sharing

/-!
# When `uvmthreaded_alloc` fails

A page is mapped in the tables of the members one after another. A failure takes back what was mapped in one table only,
so whatever another member has got by then stays.
-/

namespace Xv6Net.Procs

open Kernel Vm Lib

variable {m m' : Machine} {s thread leader : Slot} {pt : PageTable} {i j n mem newsz : Nat} {perm : Perm}
  {L : List Slot}

theorem Proc.leaf_eq {p : Proc} (h : p.pagetable = some pt) (i : Nat) : p.leaf i = pt.leaves.lookup i := by
  rw [Proc.leaf, h, Option.bind_some]

/-- The table of `s` maps the pages from `i` up to `j`, and not page `j`. -/
def MappedUpTo (m : Machine) (i j : Nat) (s : Slot) : Prop :=
  ∃ pt, (m.proc s).pagetable = some pt ∧ (∀ l, j ≤ l → l < USER_PAGES → l ∉ pt.leaves) ∧
    ∀ l, i ≤ l → l < j → ∃ pte, pt.leaves.lookup l = some pte ∧ m.kmem.Ram pte.pa

theorem uvmdealloc_self (k : Kmem) (pt : PageTable) (a : Nat) : uvmdealloc k pt a a = .ok (a, k, pt) := by
  rw [uvmdealloc, if_pos (Nat.le_refl a)]

theorem uvmdealloc_returns {k : Kmem} (hj : j ≤ USER_PAGES) (hij : i ≤ j)
    (h : ∀ l, i ≤ l → l < j → ∃ pte, pt.leaves.lookup l = some pte ∧ k.Ram pte.pa) :
    Returns (uvmdealloc k pt (j * PGSIZE) (i * PGSIZE)) fun _ => True := by
  unfold uvmdealloc
  split
  · exact .ok trivial
  rw [pgRoundUp_mul hj, pgRoundUp_mul (hij.trans hj)]
  split
  · dsimp only [uvmunmap]
    rw [if_neg (by rw [Nat.mul_mod_left]; decide), ← Nat.sub_mul, Nat.mul_div_cancel _ (by decide)]
    refine (unmapLoop_returns (by omega) fun l hl hlj => ?_).bind fun _ _ => .ok trivial
    obtain ⟨pte, hpte, hram⟩ := h l hl (by omega)
    exact ⟨pte, hpte, fun _ => hram⟩
  · exact .ok trivial

/-! ## One page for all members -/

/-- What `mapThreads` does for page `j` with the processes `L`, `b` being whether it maps the page in all of them. -/
structure MapsAll (m : Machine) (mem j : Nat) (perm : Perm) (L : List Slot) (b : Bool) (m' : Machine) : Prop where
  touches : Touches m m' (· ∈ L)
  enough : b = true ↔ (L.map (m.missing j)).sum ≤ m.kmem.freelist.length
  free : b = true → m'.kmem.freelist.length + (L.map (m.missing j)).sum = m.kmem.freelist.length
  kend : b = true → m'.kmem.kend = m.kmem.kend
  stored : b = true → ∀ s ∈ L, ∀ pt, (m.proc s).pagetable = some pt → ∃ pt', (m'.proc s).pagetable = some pt' ∧
    pt'.leaves = pt.leaves.insert j ⟨mem, perm⟩ ∧ ∀ n, pt.lacks j (n + 1) = pt.missing j + pt'.lacks (j + 1) n
  others : b = false → ∃ x, ∀ s, s ≠ x → ∀ l, l ≠ j → (m'.proc s).leaf l = (m.proc s).leaf l
  first : b = false → ∀ s ∈ L.head?, m.missing j s ≤ m.kmem.freelist.length → (m'.proc s).leaf j = some ⟨mem, perm⟩

/-- The page was mapped in the table of `s`, and `m₂` is the machine then. -/
theorem MapsAll.cons {m₂ : Machine} {k₂ : Kmem} {pt₂ : PageTable} {b : Bool} (hs : s ∉ L)
    (hpt : (m.proc s).pagetable = some pt) (hm : MapsExactly m.kmem pt k₂ pt₂ j ⟨mem, perm⟩ true) (hk : m₂.kmem = k₂)
    (hpt₂ : (m₂.proc s).pagetable = some pt₂) (htouch : Touches m m₂ (· = s)) (h : MapsAll m₂ mem j perm L b m') :
    MapsAll m mem j perm (s :: L) b m' := by
  have hfree := hm.takes.free rfl
  obtain ⟨taken, htook, -⟩ := hm.took
  have hother : ∀ t ∈ L, m₂.proc t = m.proc t := fun t ht => htouch.same t fun he => hs (he ▸ ht)
  have hself : m'.proc s = m₂.proc s := h.touches.same s hs
  have hsum : ((s :: L).map (m.missing j)).sum = pt.missing j + (L.map (m₂.missing j)).sum := by
    have hmap : L.map (m.missing j) = L.map (m₂.missing j) := by
      refine List.map_congr_left fun t ht => ?_
      rw [Machine.missing, Machine.missing, hother t ht]
    rw [List.map_cons, List.sum_cons, hmap, Machine.missing, hpt]
    rfl
  have hlookup : ∀ l, (m₂.proc s).leaf l = (pt.leaves.insert j ⟨mem, perm⟩).lookup l := by
    intro l
    rw [Proc.leaf_eq hpt₂, hm.stored rfl]
  constructor
  · exact (htouch.mono fun t ht => ht ▸ List.mem_cons_self).trans (h.touches.mono fun t ht => List.mem_cons_of_mem s ht)
  · rw [h.enough, hsum, hk]
    omega
  · intro hb
    have := h.free hb
    rw [hk] at this
    rw [hsum]
    omega
  · intro hb
    rw [h.kend hb, hk, htook.kend]
  · intro hb t ht ptt hptt
    rcases List.mem_cons.mp ht with rfl | ht
    · obtain rfl : pt = ptt := Option.some.inj (hpt.symm.trans hptt)
      rw [hself]
      exact ⟨pt₂, hpt₂, hm.stored rfl, hm.takes.lacks⟩
    · exact h.stored hb t ht ptt (by rw [hother t ht]; exact hptt)
  · intro hb
    obtain ⟨x, hx⟩ := h.others hb
    refine ⟨x, fun t ht l hl => ?_⟩
    rw [hx t ht l hl]
    by_cases hts : t = s
    · subst hts
      rw [hlookup, AList.lookup_insert_ne hl, Proc.leaf_eq hpt]
    · rw [htouch.same t hts]
  · intro _ t ht _
    obtain rfl : s = t := Option.some.inj ht
    rw [hself, hlookup, AList.lookup_insert]

theorem mapThreads_all (hL : L.Nodup) (hj : j < USER_PAGES) (hij : i ≤ j)
    (hup : ∀ s ∈ L, MappedUpTo m i j s) (hmem : m.kmem.Ram mem) :
    Returns (mapThreads m mem (j * PGSIZE) (i * PGSIZE) newsz perm L) fun (b, m') => MapsAll m mem j perm L b m' := by
  induction L generalizing m with
  | nil =>
      refine .ok ⟨.of_proc_eq rfl, ?_, ?_, ?_, ?_, ?_, ?_⟩ <;> simp
  | cons s L ih =>
      obtain ⟨hs, hL⟩ := List.nodup_cons.mp hL
      obtain ⟨pt, hpt, hfresh, hram⟩ := hup s List.mem_cons_self
      unfold mapThreads
      refine (onTable_returns (fun k pt => mappages k pt (j * PGSIZE) PGSIZE mem perm) hpt
        (mappages_exactly hj (hfresh j (Nat.le_refl j) hj))).bind ?_
      rintro ⟨b, m₁⟩ ⟨k₂, pt₂, hm, hm₁⟩
      obtain ⟨taken, htook, -⟩ := hm.took
      cases b with
      | true =>
          have htouch : Touches m (m₁.setSz s newsz) (· = s) := by
            rw [hm₁]
            refine Touches.trans (.of_kmem (.setProc ?_ ?_)) (.setSz ?_) <;> rfl
          have hkmem : (m₁.setSz s newsz).kmem = k₂ := by rw [hm₁]; rfl
          have hpt₂ : ((m₁.setSz s newsz).proc s).pagetable = some pt₂ := by
            simp [hm₁, Machine.setSz, Machine.setProc]
          refine (ih hL (fun t ht => ?_) (by rw [hkmem, htook.ram]; exact hmem)).mono
            fun _ h => h.cons hs hpt hm hkmem hpt₂ htouch
          have hts : t ≠ s := fun he => hs (he ▸ ht)
          obtain ⟨ptt, hptt, hfresh', hram'⟩ := hup t (List.mem_cons_of_mem s ht)
          refine ⟨ptt, by rw [htouch.same t hts]; exact hptt, hfresh', ?_⟩
          rw [hkmem, htook.ram]
          exact hram'
      | false =>
          -- the page is freed, and the table of `s` loses what it has got so far
          have hkmem : m₁.kmem = k₂ := by rw [hm₁]; rfl
          have hshort : ¬ pt.missing j ≤ m.kmem.freelist.length := fun hle => Bool.false_ne_true (hm.enough.mpr hle)
          have hmissing : m.missing j s = pt.missing j := by rw [Machine.missing, hpt]; rfl
          refine (kfree_returns (by rw [hkmem, htook.ram]; exact hmem)).bind fun k₃ hk₃ => ?_
          have hpt₂ : ({ m₁ with kmem := k₃ }.proc s).pagetable = some pt₂ := by simp [hm₁, Machine.setProc]
          have hundo : Returns (uvmdealloc k₃ pt₂ (j * PGSIZE) (i * PGSIZE)) fun _ => True := by
            refine uvmdealloc_returns (Nat.le_of_lt hj) hij fun l hl hlj => ?_
            obtain ⟨pte, hpte, hpa⟩ := hram l hl hlj
            refine ⟨pte, by rw [hm.failed rfl]; exact hpte, ?_⟩
            unfold Kmem.Ram at hpa ⊢
            rw [hk₃, hkmem, htook.kend]
            exact hpa
          have hdealloc := (onTable_returns (fun k pt => uvmdealloc k pt (j * PGSIZE) (i * PGSIZE)) hpt₂ hundo).and
            (onTable_touches (L := (· = s)) rfl)
          refine hdealloc.bind ?_
          rintro ⟨_, m'⟩ ⟨_, htouch'⟩
          have htouch : Touches m m' (· = s) := by
            rw [hm₁] at htouch'
            refine Touches.trans (.of_kmem (.setProc ?_ ?_)) htouch'.of_kmem <;> rfl
          have hfalse {P : Prop} (hb : false = true) : P := absurd hb Bool.false_ne_true
          refine .ok ⟨htouch.mono fun t ht => ht ▸ List.mem_cons_self, ⟨hfalse, fun hle => ?_⟩, hfalse, hfalse, hfalse,
            fun _ => ⟨s, fun t ht l _ => by rw [htouch.same t ht]⟩, fun _ t ht hle => ?_⟩
          · rw [List.map_cons, List.sum_cons, hmissing] at hle
            omega
          · obtain rfl : s = t := Option.some.inj ht
            rw [hmissing] at hle
            exact absurd hle hshort

/-- From the trapframe on no page can be mapped. -/
theorem mappages_topped {k : Kmem} (htop : pt.Topped) (hj : USER_PAGES ≤ j) :
    Ensures (mappages k pt (j * PGSIZE) PGSIZE mem perm) fun _ => False := by
  have ha : j * PGSIZE % PGSIZE = 0 := Nat.mul_mod_left ..
  by_cases hmem : j ∈ pt.leaves
  · -- the tables are there, so it can only stop at the entry
    refine ((mappages_takes ha).and (mappages_maps ha)).mono fun (b, k', pt') ⟨ht, hm⟩ => ?_
    rw [Nat.mul_div_cancel j (by decide)] at ht hm
    cases b with
    | true => exact (hm.stored rfl).1 hmem
    | false =>
        have hshort := ht.short rfl
        rw [PageTable.missing_eq_zero (pt.leaves_tab j hmem)] at hshort
        exact Nat.not_lt_zero _ hshort
  · have hva : MAXVA ≤ j * PGSIZE := by
      have h₀ : j ≠ USER_PAGES := fun he => hmem (he ▸ htop.1)
      have h₁ : j ≠ USER_PAGES + 1 := fun he => hmem (he ▸ htop.2)
      simp only [USER_PAGES, TRAPFRAME, TRAMPOLINE, MAXVA, PGSIZE] at *
      omega
    rw [mappages_one ha, mapLoop, walk, if_pos hva]
    exact .error

/-- The free list is too short for the tables that the first process lacks. -/
theorem mapThreads_short (hj : j < USER_PAGES) (hpt : (m.proc s).pagetable = some pt)
    (hfresh : j ∉ pt.leaves) (hmem : Held m.kmem mem) (hshort : m.kmem.freelist.length < pt.missing j) :
    Returns (mapThreads m mem (j * PGSIZE) (j * PGSIZE) newsz perm (s :: L)) fun (b, m') =>
      b = false ∧ m'.kmem.freelist = [mem] ∧ ∃ pt', pt'.leaves = pt.leaves ∧ pt'.pages = m.kmem.freelist + pt.pages ∧
        m'.proc = Function.update m.proc s { m.proc s with pagetable := some pt' } := by
  have hmaps := onTable_returns (fun k pt => mappages k pt (j * PGSIZE) PGSIZE mem perm) hpt
    (mappages_exactly hj hfresh)
  unfold mapThreads
  refine hmaps.bind ?_
  rintro ⟨b, m₁⟩ ⟨k₂, pt₂, hm, hm₁⟩
  obtain rfl : b = false := by
    cases b with
    | false => rfl
    | true => exact absurd (hm.enough.mp rfl) (by omega)
  obtain ⟨taken, htook, hpages⟩ := hm.took
  have hfree := htook.free
  rw [hm.drained rfl, List.append_nil] at hfree
  subst hm₁
  obtain ⟨k₃, hk₃, hf₃, -⟩ := (htook.held hmem).kfree (by rw [hm.drained rfl]; exact List.nodup_nil)
  have hk₃' : kfree ({ m with kmem := k₂ }.setProc s { m.proc s with pagetable := some pt₂ }).kmem mem = .ok k₃ := hk₃
  simp only [hk₃']
  rw [hm.drained rfl] at hf₃
  -- nothing was mapped before this page
  have hundo : Returns (uvmdealloc k₃ pt₂ (j * PGSIZE) (j * PGSIZE)) (· = (j * PGSIZE, k₃, pt₂)) :=
    ⟨_, uvmdealloc_self k₃ pt₂ _, rfl⟩
  refine (onTable_returns (fun k pt => uvmdealloc k pt (j * PGSIZE) (j * PGSIZE)) (by simp [Machine.setProc])
    hundo).bind ?_
  rintro ⟨_, m'⟩ ⟨k₄, pt₄, he, hm'⟩
  cases he
  refine .ok ⟨rfl, ?_, pt₂, hm.failed rfl, by rw [hpages, hfree], ?_⟩
  · rw [hm']
    exact hf₃
  · simp [hm', Machine.setProc]

/-! ## Page after page -/

theorem Machine.need_zero (m : Machine) (leader : Slot) (j : Nat) : m.need leader j 0 = 0 := by
  have hzero : ∀ s ∈ m.members leader, m.lacks j 0 s = 0 := by
    intro s _
    rw [Machine.lacks]
    cases (m.proc s).pagetable with
    | none => rfl
    | some pt => exact pt.lacks_zero j
  rw [Machine.need, List.map_congr_left hzero]
  simp

/-- The members map the same pages from `i` on, up to page `j`. -/
structure GrownTo (m : Machine) (thread leader : Slot) (i j : Nat) : Prop where
  nodup : (m.members leader).Nodup
  thread : thread ∈ m.infants leader
  tables : ∀ s ∈ m.members leader, MappedUpTo m i j s
  topped : ∀ s ∈ m.members leader, ∀ pt, (m.proc s).pagetable = some pt → pt.Topped

namespace GrownTo

variable {k : Kmem}

theorem ne (h : GrownTo m thread leader i j) : thread ≠ leader := by
  have hdisj := (List.nodup_append.mp h.nodup).2.2
  exact hdisj thread h.thread leader (List.mem_singleton.mpr rfl)

theorem thread_mem (h : GrownTo m thread leader i j) : thread ∈ m.members leader := List.mem_append_left _ h.thread

theorem leader_mem (_ : GrownTo m thread leader i j) : leader ∈ m.members leader :=
  List.mem_append_right _ (List.mem_singleton.mpr rfl)

/-- One of the two is not the process that loses its pages. -/
theorem exists_ne (h : GrownTo m thread leader i j) (x : Slot) : ∃ s ∈ m.members leader, s ≠ x := by
  by_cases hx : thread = x
  · exact ⟨leader, h.leader_mem, fun he => h.ne (hx.trans he.symm)⟩
  · exact ⟨thread, h.thread_mem, hx⟩

theorem leaf_ne_none (h : GrownTo m thread leader i j) (hij : i < j) (hs : s ∈ m.members leader) :
    (m.proc s).leaf i ≠ none := by
  obtain ⟨pt, hpt, -, hmapped⟩ := h.tables s hs
  obtain ⟨pte, hpte, -⟩ := hmapped i (Nat.le_refl i) hij
  rw [Proc.leaf_eq hpt, hpte]
  nofun

theorem mapThreads (h : GrownTo m thread leader i j) (hij : i ≤ j) (hj : j < USER_PAGES)
    (hk : kalloc m.kmem = (some mem, k)) (newsz : Nat) (perm : Perm) :
    Returns (mapThreads { m with kmem := k } mem (j * PGSIZE) (i * PGSIZE) newsz perm (m.members leader)) fun (b, m') =>
      MapsAll { m with kmem := k } mem j perm (m.members leader) b m' := by
  have htook := Took.kalloc hk
  refine mapThreads_all h.nodup hj hij (fun s hs => ?_) ?_
  · obtain ⟨pt, hpt, hfresh, hmapped⟩ := h.tables s hs
    refine ⟨pt, hpt, hfresh, ?_⟩
    rw [show ({ m with kmem := k } : Machine).kmem.Ram = m.kmem.Ram from htook.ram]
    exact hmapped
  · rw [show ({ m with kmem := k } : Machine).kmem.Ram = m.kmem.Ram from htook.ram]
    exact htook.mem_ram List.mem_cons_self

theorem members_next {b : Bool} (_ : GrownTo m thread leader i j)
    (hm : MapsAll { m with kmem := k } mem j perm (m.members leader) b m') : m'.members leader = m.members leader := by
  rw [Machine.members, Machine.members, hm.touches.infants leader]
  rfl

/-- The next page is mapped in all tables. -/
theorem next (h : GrownTo m thread leader i j) (hk : kalloc m.kmem = (some mem, k))
    (hm : MapsAll { m with kmem := k } mem j perm (m.members leader) true m') :
    GrownTo m' thread leader i (j + 1) := by
  have hinf : m'.infants leader = m.infants leader := hm.touches.infants leader
  have hmem := h.members_next hm
  have htook := Took.kalloc hk
  have hram : m'.kmem.Ram = m.kmem.Ram := by
    funext p
    rw [Kmem.Ram, Kmem.Ram, hm.kend rfl, htook.kend]
  refine ⟨by rw [hmem]; exact h.nodup, by rw [hinf]; exact h.thread, ?_, ?_⟩
  · rw [hmem]
    intro s hs
    obtain ⟨pt, hpt, hfresh, hmapped⟩ := h.tables s hs
    obtain ⟨pt', hpt', hl, -⟩ := hm.stored rfl s hs pt hpt
    refine ⟨pt', hpt', fun l hjl hl' hmem' => ?_, fun l hil hlj => ?_⟩
    · rw [hl, AList.mem_insert] at hmem'
      rcases hmem' with he | hmem'
      · omega
      · exact hfresh l (by omega) hl' hmem'
    · rw [hl, hram]
      by_cases he : l = j
      · subst he
        exact ⟨⟨mem, perm⟩, AList.lookup_insert _, htook.mem_ram List.mem_cons_self⟩
      · rw [AList.lookup_insert_ne he]
        exact hmapped l hil (by omega)
  · rw [hmem]
    intro s hs pt' hpt'
    obtain ⟨pt, hpt, -⟩ := h.tables s hs
    obtain ⟨pt'', hpt'', hl, -⟩ := hm.stored rfl s hs pt hpt
    obtain rfl : pt'' = pt' := Option.some.inj (hpt''.symm.trans hpt')
    obtain ⟨hframe, htramp⟩ := h.topped s hs pt hpt
    rw [PageTable.Topped, hl]
    exact ⟨(AList.mem_insert _).mpr (.inr hframe), (AList.mem_insert _).mpr (.inr htramp)⟩

/-- What the next page takes, and what is left for those after it. -/
theorem need_next (h : GrownTo m thread leader i j) (hk : kalloc m.kmem = (some mem, k))
    (hm : MapsAll { m with kmem := k } mem j perm (m.members leader) true m') (n : Nat) :
    m.need leader j (n + 1) + m'.kmem.freelist.length = m'.need leader (j + 1) n + m.kmem.freelist.length := by
  have hfree := hm.free rfl
  have hlen : m.kmem.freelist.length = k.freelist.length + 1 := by rw [(kalloc_eq_some hk).1, List.length_cons]
  have hmap : (m.members leader).map (m.lacks j (n + 1)) =
      (m.members leader).map fun s => m.missing j s + m'.lacks (j + 1) n s := by
    refine List.map_congr_left fun s hs => ?_
    obtain ⟨pt, hpt, -⟩ := h.tables s hs
    obtain ⟨pt', hpt', -, hlacks⟩ := hm.stored rfl s hs pt hpt
    rw [Machine.lacks, Machine.missing, Machine.lacks, hpt, hpt']
    exact hlacks n
  have hmissing : ({ m with kmem := k } : Machine).missing j = m.missing j := rfl
  rw [Machine.need, Machine.need, h.members_next hm, hmap, List.sum_map_add]
  rw [hmissing] at hfree
  dsimp only at hfree
  omega

theorem short_page (h : GrownTo m thread leader i j) (hk : kalloc m.kmem = (some mem, k))
    (hm : MapsAll { m with kmem := k } mem j perm (m.members leader) false m') (n : Nat) :
    m.kmem.freelist.length < m.need leader j (n + 1) := by
  have hshort : ¬ ((m.members leader).map (m.missing j)).sum ≤ k.freelist.length := fun hle => nomatch hm.enough.mpr hle
  have hle : ((m.members leader).map (m.missing j)).sum ≤ ((m.members leader).map (m.lacks j (n + 1))).sum := by
    refine List.sum_le_sum fun s hs => ?_
    obtain ⟨pt, hpt, -⟩ := h.tables s hs
    rw [Machine.missing, Machine.lacks, hpt]
    exact (pt.lacks_one j).symm.le.trans (PageTable.lacks_mono (by omega))
  rw [(kalloc_eq_some hk).1, List.length_cons, Machine.need]
  omega

/-- At the trapframe a free page is enough to get no further. -/
theorem need_top (h : GrownTo m thread leader i USER_PAGES) : m.need leader USER_PAGES 1 = 1 := by
  have hzero : ∀ s ∈ m.members leader, m.lacks USER_PAGES 1 s = 0 := by
    intro s hs
    obtain ⟨pt, hpt, -⟩ := h.tables s hs
    rw [Machine.lacks, hpt]
    exact (pt.lacks_one USER_PAGES).trans (PageTable.missing_eq_zero (pt.leaves_tab _ (h.topped s hs pt hpt).1))
  rw [Machine.need, List.map_congr_left hzero]
  simp

section

variable (h : GrownTo m thread leader i j)
include h

theorem mapThreads_topped (hj : USER_PAGES ≤ j) (k : Kmem) (a : Nat) :
    Ensures (Procs.mapThreads { m with kmem := k } mem (j * PGSIZE) a newsz perm (m.members leader)) fun _ => False := by
  cases hmem : m.members leader with
  | nil => exact absurd h.leader_mem (by simp [hmem])
  | cons s L =>
      have hs : s ∈ m.members leader := by rw [hmem]; exact List.mem_cons_self
      obtain ⟨pt, hpt, -⟩ := h.tables s hs
      unfold Procs.mapThreads Machine.onTable
      simp only [hpt]
      exact ((mappages_topped (h.topped s hs pt hpt) hj).bind (R := fun _ => False) fun _ => False.elim).bind fun _ => False.elim

/-- Whoever is not `thread` keeps its pages when there is no page to be had. -/
theorem drained (hij : i ≤ j) (hj : j ≤ USER_PAGES) (hk : kalloc m.kmem = (none, k)) :
    Returns ({ m with kmem := k }.onTable thread fun k pt => uvmdealloc k pt (j * PGSIZE) (i * PGSIZE)) fun (_, m') =>
      Touches m m' (· = thread) := by
  obtain ⟨pt, hpt, -, hmapped⟩ := h.tables thread h.thread_mem
  have hram : k.Ram = m.kmem.Ram := (Took.kalloc_none hk).ram
  have hundo : Returns (uvmdealloc k pt (j * PGSIZE) (i * PGSIZE)) fun _ => True :=
    uvmdealloc_returns hj hij (by rw [hram]; exact hmapped)
  exact ((onTable_returns (m := { m with kmem := k }) (fun k pt => uvmdealloc k pt (j * PGSIZE) (i * PGSIZE)) hpt
    hundo).and (onTable_touches (L := (· = thread)) rfl)).mono fun (_, m') ⟨_, ht⟩ => ht.of_kmem

theorem loop_enough (hij : i ≤ j) (hj : j ≤ USER_PAGES)
    (hneed : m.need leader j (min n (USER_PAGES + 1 - j)) ≤ m.kmem.freelist.length) :
    Ensures (threadedLoop m thread (some leader) (j * PGSIZE) (i * PGSIZE) newsz perm n) fun (b, _) => b = true := by
  induction n generalizing m j with
  | zero => exact .ok rfl
  | succ n ih =>
      rw [show min (n + 1) (USER_PAGES + 1 - j) = min n (USER_PAGES + 1 - (j + 1)) + 1 by omega] at hneed
      unfold threadedLoop
      split
      · rename_i k hk
        rw [freelist_eq_nil hk, Machine.need] at hneed
        simp at hneed
      · rename_i mem k hk
        by_cases htop : j = USER_PAGES
        · subst htop
          exact (h.mapThreads_topped (Nat.le_refl _) k _).bind fun _ => False.elim
        · refine (h.mapThreads hij (by omega) hk newsz perm).ensures.bind fun (b, m₁) hm => ?_
          cases b with
          | true =>
              have hnext := h.need_next hk hm (min n (USER_PAGES + 1 - (j + 1)))
              have ih := ih (h.next hk hm) (by omega) (by omega) (by omega)
              rw [Nat.succ_mul] at ih
              exact ih
          | false => exact absurd (h.short_page hk hm _) (Nat.not_lt.mpr hneed)

/-- With too few pages the loop fails, and a member keeps page `i` unless it is the first to fail. -/
theorem loop_short (hij : i ≤ j) (hj : j ≤ USER_PAGES)
    (hneed : m.kmem.freelist.length < m.need leader j (min n (USER_PAGES + 1 - j))) :
    Returns (threadedLoop m thread (some leader) (j * PGSIZE) (i * PGSIZE) newsz perm n) fun (b, m') =>
      b = false ∧ (i < j → ∃ s ∈ m.members leader, (m'.proc s).leaf i ≠ none) := by
  induction n generalizing m j with
  | zero =>
      rw [Nat.zero_min, Machine.need_zero] at hneed
      exact absurd hneed (Nat.not_lt_zero _)
  | succ n ih =>
      rw [show min (n + 1) (USER_PAGES + 1 - j) = min n (USER_PAGES + 1 - (j + 1)) + 1 by omega] at hneed
      unfold threadedLoop
      split
      · rename_i k hk
        refine (h.drained hij hj hk).bind fun (_, m') ht => .ok ⟨rfl, fun hlt => ?_⟩
        refine ⟨leader, h.leader_mem, ?_⟩
        rw [ht.same leader h.ne.symm]
        exact h.leaf_ne_none hlt h.leader_mem
      · rename_i mem k hk
        by_cases htop : j = USER_PAGES
        · subst htop
          rw [Nat.sub_eq_zero_of_le (Nat.le_refl _), Nat.min_zero, h.need_top, (kalloc_eq_some hk).1] at hneed
          simp at hneed
        · refine (h.mapThreads hij (by omega) hk newsz perm).bind fun (b, m₁) hm => ?_
          cases b with
          | true =>
              have hnext := h.need_next hk hm (min n (USER_PAGES + 1 - (j + 1)))
              have ih := ih (h.next hk hm) (by omega) (by omega) (by omega)
              rw [Nat.succ_mul] at ih
              refine ih.mono fun (b, m') ⟨hb, hkept⟩ => ⟨hb, fun _ => ?_⟩
              rw [← h.members_next hm]
              exact hkept (by omega)
          | false =>
              refine .ok ⟨rfl, fun hlt => ?_⟩
              obtain ⟨x, hx⟩ := hm.others rfl
              obtain ⟨s, hs, hne⟩ := h.exists_ne x
              refine ⟨s, hs, ?_⟩
              rw [hx s hne i (by omega)]
              exact h.leaf_ne_none hlt hs

end

end GrownTo

/-! ## The first page -/

namespace ThreadGroup

variable {oldsz : Nat} {k : Kmem}

section

variable (h : ThreadGroup m thread leader oldsz)
include h

theorem grownTo (hi : pgRoundUp oldsz = i * PGSIZE) : GrownTo m thread leader i i := by
  refine ⟨h.nodup, h.listed, fun s hs => ?_, fun s hs pt hpt => ?_⟩
  · obtain ⟨pt, hpt, -, hfresh⟩ := h.tables s hs
    exact ⟨pt, hpt, fun l hl hl' => hfresh l (by rw [hi]; exact Nat.mul_le_mul_right _ hl) hl', fun l hl hl' => by omega⟩
  · obtain ⟨pt', hpt', htop, -⟩ := h.tables s hs
    obtain rfl : pt' = pt := Option.some.inj (hpt'.symm.trans hpt)
    exact htop

theorem leaf_eq_none (hi : pgRoundUp oldsz = i * PGSIZE) (hlt : i < USER_PAGES)
    (hs : s ∈ m.members leader) : (m.proc s).leaf i = none := by
  obtain ⟨pt, hpt, -, hfresh⟩ := h.tables s hs
  rw [Proc.leaf_eq hpt]
  exact AList.lookup_eq_none.mpr (hfresh i (Nat.le_of_eq hi) hlt)

theorem not_undone (hi : pgRoundUp oldsz = i * PGSIZE) (hlt : i < USER_PAGES)
    (hkept : ∃ s ∈ m.members leader, (m'.proc s).leaf i ≠ none) : ¬ GrowthUndone m m' leader := by
  intro hundone
  obtain ⟨s, hs, hne⟩ := hkept
  exact hne ((hundone.leaves s hs i hlt).trans (h.leaf_eq_none hi hlt hs))

/-- Nothing has changed. -/
theorem undone_refl (hfree : m'.kmem.freelist = m.kmem.freelist)
    (hproc : m'.proc = m.proc) : GrowthUndone m m' leader := by
  constructor
  · intro s _; rw [hproc]
  · intro s _ l _; rw [hproc]
  · rw [hproc, hfree]; exact h.mapped
  · rw [hfree]; exact h.free
  · intro p hp; exact .inl (hfree ▸ hp)

/-- The page is back on the free list, and the other free pages have become tables of `s`. -/
theorem undone_first {pt' : PageTable} (hk : kalloc m.kmem = (some mem, k))
    (hs : s ∈ m.members leader) (hpt : (m.proc s).pagetable = some pt) (hfree : m'.kmem.freelist = [mem])
    (hl : pt'.leaves = pt.leaves) (hpages : pt'.pages = k.freelist + pt.pages)
    (hproc : m'.proc = Function.update m.proc s { m.proc s with pagetable := some pt' }) :
    GrowthUndone m m' leader := by
  have hlist := (kalloc_eq_some hk).1
  have hself : (m'.proc s).pagetable = some pt' := by rw [hproc, Function.update_self]
  have hleaf : ∀ t l, (m'.proc t).leaf l = (m.proc t).leaf l := by
    intro t l
    by_cases ht : t = s
    · subst ht
      rw [Proc.leaf_eq hself, Proc.leaf_eq hpt, hl]
    · rw [hproc, Function.update_of_ne ht]
  constructor
  · intro t _
    by_cases ht : t = s
    · subst ht; rw [hproc, Function.update_self]
    · rw [hproc, Function.update_of_ne ht]
  · exact fun t _ l _ => hleaf t l
  · intro t l pte hlt hpte hmem
    rw [hleaf] at hpte
    rw [hfree, List.mem_singleton] at hmem
    exact h.mapped t l pte hlt hpte (by rw [hlist, hmem]; exact List.mem_cons_self)
  · rw [hfree]; exact List.nodup_singleton mem
  · intro p hp
    rw [hlist, List.mem_cons] at hp
    rcases hp with rfl | hp
    · exact .inl (by rw [hfree]; exact List.mem_cons_self)
    · exact .inr ⟨s, hs, pt', hself, by rw [hpages]; exact Multiset.mem_add.mpr (.inl hp)⟩

section

variable (hi : pgRoundUp oldsz = i * PGSIZE)
include hi

/-- There is a page for the first mapping, and it can be mapped nowhere. -/
theorem first_short (hlt : i < USER_PAGES)
    (hk : kalloc m.kmem = (some mem, k)) (hshort : m.kmem.freelist.length ≤ m.firstMissing leader i) :
    Returns (mapThreads { m with kmem := k } mem (i * PGSIZE) (i * PGSIZE) newsz perm (m.members leader)) fun (b, m') =>
      b = false ∧ GrowthUndone m m' leader := by
  cases hmem : m.members leader with
  | nil => exact absurd (h.grownTo hi).leader_mem (by simp [hmem])
  | cons s L =>
      have hs : s ∈ m.members leader := by rw [hmem]; exact List.mem_cons_self
      obtain ⟨pt, hpt, -, hfresh⟩ := h.tables s hs
      have hlist := (kalloc_eq_some hk).1
      have htook := Took.kalloc hk
      have hfirst : m.firstMissing leader i = pt.missing i := by
        rw [Machine.firstMissing, hmem]
        simp [Machine.missing, hpt]
      rw [hfirst, hlist, List.length_cons] at hshort
      have hheld : Held k mem := by
        refine ⟨?_, htook.one (List.nodup_singleton mem) mem List.mem_cons_self, ?_⟩
        · rw [htook.kend]; exact htook.mem_ram List.mem_cons_self
        · have hnodup := h.free
          rw [hlist] at hnodup
          exact (List.nodup_cons.mp hnodup).1
      refine (mapThreads_short (m := { m with kmem := k }) hlt hpt (hfresh i (Nat.le_of_eq hi) hlt) hheld
        (by dsimp only; omega)).mono fun (b, m') ⟨hb, hfree, pt', hl, hpages, hproc⟩ => ⟨hb, ?_⟩
      exact h.undone_first hk hs hpt hfree hl hpages hproc

/-- There is no page for the first mapping. -/
theorem first_drained (hk : kalloc m.kmem = (none, k)) :
    Returns ({ m with kmem := k }.onTable thread fun k pt => uvmdealloc k pt (i * PGSIZE) (i * PGSIZE)) fun (_, m') =>
      GrowthUndone m m' leader := by
  obtain ⟨pt, hpt, -⟩ := h.tables thread (h.grownTo hi).thread_mem
  have hundo : Returns (uvmdealloc k pt (i * PGSIZE) (i * PGSIZE)) (· = (i * PGSIZE, k, pt)) :=
    ⟨_, uvmdealloc_self k pt _, rfl⟩
  refine (onTable_returns (m := { m with kmem := k }) (fun k pt => uvmdealloc k pt (i * PGSIZE) (i * PGSIZE)) hpt
    hundo).mono fun (_, m') ⟨k₁, pt₁, he, hm'⟩ => ?_
  cases he
  refine h.undone_refl (by rw [hm']; exact (kalloc_eq_none hk).1) ?_
  rw [hm', ← hpt]
  exact Function.update_eq_self thread m.proc

/-- There is more than the first mapping takes. -/
theorem first_mapped (hlt : i < USER_PAGES)
    (hk : kalloc m.kmem = (some mem, k)) (hfirst : m.firstMissing leader i < m.kmem.freelist.length) :
    Ensures (threadedLoop m thread (some leader) (i * PGSIZE) (i * PGSIZE) newsz perm (n + 1))
      (fun (b, m') => b = false → GrowthUndone m m' leader) ↔
    m.need leader i (min (n + 1) (USER_PAGES + 1 - i)) ≤ m.kmem.freelist.length := by
  have hgrown := h.grownTo hi
  have hlist := (kalloc_eq_some hk).1
  have hpages : min (n + 1) (USER_PAGES + 1 - i) = min n (USER_PAGES + 1 - (i + 1)) + 1 := by omega
  obtain ⟨⟨b, m₁⟩, hrun, hm⟩ := hgrown.mapThreads (Nat.le_refl i) hlt hk newsz perm
  have hstep : threadedLoop m thread (some leader) (i * PGSIZE) (i * PGSIZE) newsz perm (n + 1) =
      if b then threadedLoop m₁ thread (some leader) ((i + 1) * PGSIZE) (i * PGSIZE) newsz perm n else .ok (false, m₁) := by
    rw [threadedLoop, hk, Nat.succ_mul]
    change (Procs.mapThreads _ mem _ _ newsz perm (m.members leader) >>= _) = _
    rw [hrun]
    cases b <;> rfl
  rw [hstep, hpages]
  cases b with
  | true =>
      have hnext := hgrown.need_next hk hm (min n (USER_PAGES + 1 - (i + 1)))
      have hgrown' := hgrown.next hk hm
      by_cases hneed : m.need leader i (min n (USER_PAGES + 1 - (i + 1)) + 1) ≤ m.kmem.freelist.length
      · refine iff_of_true ?_ hneed
        exact (hgrown'.loop_enough (Nat.le_succ i) hlt (by omega)).mono fun (b, _) hb hf => nomatch hb.symm.trans hf
      · refine iff_of_false (fun hens => ?_) hneed
        obtain ⟨⟨b, m'⟩, hloop, hb, hkept⟩ := @GrownTo.loop_short m₁ thread leader i (i + 1) n newsz perm hgrown'
          (Nat.le_succ i) hlt (by omega)
        rw [hgrown.members_next hm] at hkept
        exact h.not_undone hi hlt (hkept (Nat.lt_succ_self i)) (hens _ hloop hb)
  | false =>
      refine iff_of_false (fun hens => ?_) (Nat.not_le.mpr (hgrown.short_page hk hm _))
      refine h.not_undone hi hlt ?_ (hens _ rfl rfl)
      cases hmem : m.members leader with
      | nil => exact absurd hgrown.leader_mem (by simp [hmem])
      | cons s L =>
          have hmissing : m.firstMissing leader i = m.missing i s := by rw [Machine.firstMissing, hmem]; rfl
          rw [hmissing, hlist, List.length_cons] at hfirst
          have hleaf := hm.first rfl s (by simp [hmem]) (Nat.le_of_lt_succ hfirst)
          exact ⟨s, List.mem_cons_self, by rw [hleaf]; nofun⟩

theorem loop_undone_iff (newsz : Nat) (perm : Perm) (n : Nat) :
    Ensures (threadedLoop m thread (some leader) (i * PGSIZE) (i * PGSIZE) newsz perm n)
      (fun (b, m') => b = false → GrowthUndone m m' leader) ↔
    m.need leader i (min n (USER_PAGES + 1 - i)) ≤ m.kmem.freelist.length ∨
      m.kmem.freelist.length ≤ m.firstMissing leader i := by
  have hgrown := h.grownTo hi
  cases n with
  | zero =>
      rw [Nat.zero_min, Machine.need_zero]
      exact iff_of_true (.ok nofun) (.inl (Nat.zero_le _))
  | succ n =>
      unfold threadedLoop
      split
      · -- no page at all
        rename_i k hk
        rw [freelist_eq_nil hk]
        refine iff_of_true ?_ (.inr (Nat.zero_le _))
        exact (h.first_drained hi hk).ensures.bind fun (_, m') hundone => .ok fun _ => hundone
      · rename_i mem k hk
        by_cases hlt : i < USER_PAGES
        · by_cases hshort : m.kmem.freelist.length ≤ m.firstMissing leader i
          · refine iff_of_true ?_ (.inr hshort)
            refine (h.first_short hi hlt hk hshort).ensures.bind fun (b, m') ⟨hb, hundone⟩ => ?_
            subst hb
            exact .ok fun _ => hundone
          · have hmapped := @first_mapped m thread leader i n mem newsz perm oldsz k h hi hlt hk (by omega)
            rw [threadedLoop, hk] at hmapped
            rw [hmapped]
            simp only [hshort, or_false]
        · refine iff_of_true ((hgrown.mapThreads_topped (by omega) k _).bind fun _ => False.elim) (.inl ?_)
          by_cases htop : i = USER_PAGES
          · subst htop
            rw [Nat.add_sub_cancel_left, Nat.min_eq_right (by omega), hgrown.need_top, (kalloc_eq_some hk).1]
            exact Nat.succ_le_succ (Nat.zero_le _)
          · rw [show USER_PAGES + 1 - i = 0 by omega, Nat.min_zero, Machine.need_zero]
            exact Nat.zero_le _

end

end

end ThreadGroup

end Xv6Net.Procs
