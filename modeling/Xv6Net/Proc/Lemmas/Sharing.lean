import Xv6Net.Proc.Lemmas.Created

/-!
# Threads that grow together

If `uvmthreaded_alloc` and `uvmthreaded_dealloc` succeed, they do the same to the page table of every thread and of
the parent.
-/

namespace Xv6Net.Procs

open Kernel Vm Lib

variable {m m' : Machine} {s t leader : Slot} {p p' p'' : Proc} {i n : Nat} {page page' : Nat → Pte} {a newsz : Nat}
  {perm : Perm}

/-- The pages from `i` on were not mapped, and are now. -/
structure Filled (p p' : Proc) (i n : Nat) (page : Nat → Pte) : Prop where
  absent : ∀ j, i ≤ j → j < i + n → p.leaf j = none
  leaf : ∀ j, p'.leaf j = if i ≤ j ∧ j < i + n then some (page j) else p.leaf j

/-- The pages from `i` on are not mapped any more. -/
def Cleared (p p' : Proc) (i n : Nat) : Prop := ∀ j, p'.leaf j = if i ≤ j ∧ j < i + n then none else p.leaf j

theorem Filled.append (h : Filled p p' i 1 page) (h' : Filled p' p'' (i + 1) n page') :
    Filled p p'' i (n + 1) fun j => if j = i then page j else page' j := by
  have hother : ∀ j, j ≠ i → p'.leaf j = p.leaf j := fun j hj => by rw [h.leaf j, if_neg (by omega)]
  refine ⟨fun j hj hn => ?_, fun j => ?_⟩
  · by_cases hi : j = i
    · exact h.absent j hj (by omega)
    · rw [← hother j hi]; exact h'.absent j (by omega) (by omega)
  · rw [h'.leaf j]
    by_cases hi : j = i
    · subst hi
      rw [if_neg (by omega), h.leaf j, if_pos (by omega), if_pos (by omega), if_pos rfl]
    · by_cases hin : i + 1 ≤ j ∧ j < i + 1 + n
      · rw [if_pos hin, if_pos (by omega), if_neg hi]
      · rw [if_neg hin, if_neg (by omega), hother j hi]

theorem Cleared.again (h : Cleared p p' i n) (h' : Cleared p' p'' i n) : Cleared p p'' i n := by
  intro j
  rw [h' j]
  split
  · rfl
  · rename_i hin; rw [h j, if_neg hin]

/-! ## The two loops -/

theorem mapPage_fills {mem : Nat} (newsz : Nat) (ha : a % PGSIZE = 0) :
    Ensures (m.onTable s fun k pt => mappages k pt a PGSIZE mem perm) fun (b, m') => b = true →
      Filled (m.proc s) ((m'.setSz s newsz).proc s) (a / PGSIZE) 1 (fun _ => ⟨mem, perm⟩) := by
  refine (onTable_spec (Q := fun pt b pt' => b = true → a / PGSIZE ∉ pt.leaves ∧
    pt'.leaves = pt.leaves.insert (a / PGSIZE) ⟨mem, perm⟩) fun pt _ => (mappages_maps ha).mono ?_).mono ?_
  · exact fun _ hm hb => hm.stored (hb ▸ rfl)
  · rintro ⟨b, m'⟩ ⟨-, pt, pt', hpt, hm, hp⟩ hb
    obtain ⟨hnot, hleaves⟩ := hm hb
    have hold : ∀ j, (m.proc s).leaf j = pt.leaves.lookup j := fun j => by rw [Proc.leaf, hpt, Option.bind_some]
    have hnew : ∀ j, ((m'.setSz s newsz).proc s).leaf j = pt'.leaves.lookup j := by
      intro j
      simp only [Machine.setSz, Machine.setProc, hp, Function.update_self, Proc.leaf, Option.bind_some]
    refine ⟨fun j hj hlt => ?_, fun j => ?_⟩
    · obtain rfl : j = a / PGSIZE := by omega
      rw [hold]
      exact AList.lookup_eq_none.mpr hnot
    · rw [hnew, hold, hleaves]
      by_cases hj : j = a / PGSIZE
      · subst hj; rw [AList.lookup_insert, if_pos (by omega)]
      · rw [AList.lookup_insert_ne hj, if_neg (by omega)]

theorem mapThreads_fills {mem oldsz : Nat} {l : List Slot} (ha : a % PGSIZE = 0) :
    Ensures (mapThreads m mem a oldsz newsz perm l) fun (b, m') => b = true →
      ∀ s ∈ l, Filled (m.proc s) (m'.proc s) (a / PGSIZE) 1 (fun _ => ⟨mem, perm⟩) ∧ (m'.proc s).sz = newsz := by
  induction l generalizing m with
  | nil => exact .ok fun _ s hs => absurd hs List.not_mem_nil
  | cons t l ih =>
      unfold mapThreads
      refine ((mapPage_fills newsz ha).and (onTable_touches (L := (· = t)) rfl)).bind ?_
      rintro ⟨b, m₁⟩ ⟨h₁, ht₁⟩
      cases b with
      | false =>
          refine Ensures.bind_any fun k => ?_
          exact Ensures.bind_any fun _ => .ok fun hb => absurd hb Bool.false_ne_true
      | true =>
          have hfill := h₁ rfl
          have htouch : Touches m (m₁.setSz t newsz) (· = t) := ht₁.trans (.setSz rfl)
          have hsz : ((m₁.setSz t newsz).proc t).sz = newsz := by
            simp only [Machine.setSz, Machine.setProc, Function.update_self]
          refine (ih.and (mapThreads_touches (L := (· ∈ l)) fun _ h => h)).mono ?_
          rintro ⟨b, m'⟩ ⟨hrest, ht'⟩ hb s hs
          by_cases hl : s ∈ l
          · obtain ⟨hf, hs'⟩ := hrest hb s hl
            by_cases hst : s = t
            · -- a process that is in the table twice would have the page mapped twice
              subst hst
              have hnone := hf.absent _ (Nat.le_refl _) (Nat.lt_succ_self _)
              rw [hfill.leaf, if_pos (by omega)] at hnone
              cases hnone
            · rw [htouch.same s hst] at hf
              exact ⟨hf, hs'⟩
          · obtain rfl : s = t := (List.mem_cons.mp hs).resolve_right hl
            rw [ht'.same s hl]
            exact ⟨hfill, hsz⟩

theorem threadedLoop_fills {thread parent : Slot} {oldsz : Nat} (ha : a % PGSIZE = 0) :
    Ensures (threadedLoop m thread (some parent) a oldsz newsz perm n) fun (b, m') => b = true →
      ∃ page, ∀ s ∈ m.infants parent ++ [parent], Filled (m.proc s) (m'.proc s) (a / PGSIZE) n page ∧
        (m'.proc s).sz = if n = 0 then (m.proc s).sz else newsz := by
  induction n generalizing m a with
  | zero =>
      refine .ok fun _ => ⟨fun _ => ⟨0, perm⟩, fun s _ => ⟨⟨fun j _ _ => by omega, fun j => ?_⟩, ?_⟩⟩
      · rw [if_neg (by omega)]
      · rw [if_pos rfl]
  | succ n ih =>
      unfold threadedLoop
      split
      · exact Ensures.bind_any fun _ => .ok (nomatch ·)
      · rename_i mem k hk
        dsimp only
        refine ((mapThreads_fills ha).and (mapThreads_touches (L := fun _ => True) fun _ _ => trivial)).bind
          fun (b, m₁) ⟨h₁, ht₁⟩ => ?_
        have htouch : Touches m m₁ fun _ => True := ht₁.of_kmem
        cases b with
        | false => exact .ok (nomatch ·)
        | true =>
            have hnext : (a + PGSIZE) / PGSIZE = a / PGSIZE + 1 := by simp only [PGSIZE]; omega
            refine (ih (by simp only [PGSIZE] at ha ⊢; omega)).mono fun (b, m') h' hb => ?_
            obtain ⟨page, hpage⟩ := h' hb
            rw [hnext] at hpage
            refine ⟨fun j => if j = a / PGSIZE then ⟨mem, perm⟩ else page j, fun s hs => ?_⟩
            obtain ⟨hf, hsz⟩ := h₁ rfl s hs
            obtain ⟨hf', hsz'⟩ := hpage s (by rw [htouch.infants]; exact hs)
            exact ⟨hf.append hf', by rw [hsz', hsz, ite_self, if_neg (Nat.succ_ne_zero n)]⟩

theorem unmapThread_clears {va npages : Nat} {doFree : Bool} :
    Ensures (unmapThread m s va npages doFree) fun m' =>
      Cleared (m.proc s) (m'.proc s) (va / PGSIZE) npages := by
  unfold unmapThread
  split
  · rename_i h0
    exact .ok fun j => by rw [if_neg (by omega)]
  · refine (onTable_spec (Q := fun pt _ pt' => ∀ j, pt'.leaves.lookup j =
      if va / PGSIZE ≤ j ∧ j < va / PGSIZE + npages then none else pt.leaves.lookup j) fun pt _ => ?_).bind ?_
    · unfold uvmunmap
      split
      · exact .error
      · rename_i ha
        exact (unmapLoop_leaves (not_not.mp ha)).bind fun (k', pt') ⟨_, _, h⟩ => .ok h
    · rintro ⟨-, m'⟩ ⟨-, pt, pt', hpt, hl, hp⟩
      refine .ok fun j => ?_
      simp only [hp, Function.update_self, Proc.leaf, hpt, Option.bind_some]
      exact hl j

theorem unmapThreads_clears {npages : Nat} {l : List Slot} :
    Ensures (unmapThreads m newsz npages l) fun m' => ∀ s ∈ l,
      Cleared (m.proc s) (m'.proc s) (pgRoundUp newsz / PGSIZE) npages ∧ (m'.proc s).sz = newsz := by
  induction l generalizing m with
  | nil => exact .ok fun s hs => absurd hs List.not_mem_nil
  | cons t l ih =>
      unfold unmapThreads
      refine (unmapThread_clears.and (unmapThread_touches (L := (· = t)) rfl)).bind ?_
      rintro m₁ ⟨h₁, ht₁⟩
      have htouch : Touches m (m₁.setSz t newsz) (· = t) := ht₁.trans (.setSz rfl)
      have hclear : Cleared (m.proc t) ((m₁.setSz t newsz).proc t) (pgRoundUp newsz / PGSIZE) npages := by
        simpa only [Cleared, Proc.leaf, Machine.setSz, Machine.setProc, Function.update_self] using h₁
      have hsz : ((m₁.setSz t newsz).proc t).sz = newsz := by
        simp only [Machine.setSz, Machine.setProc, Function.update_self]
      refine (ih.and (unmapThreads_touches (L := (· ∈ l)) fun _ h => h)).mono ?_
      rintro m' ⟨hrest, ht'⟩ s hs
      by_cases hl : s ∈ l
      · obtain ⟨hc, hs'⟩ := hrest s hl
        by_cases hst : s = t
        · subst hst; exact ⟨hclear.again hc, hs'⟩
        · rw [htouch.same s hst] at hc; exact ⟨hc, hs'⟩
      · obtain rfl : s = t := (List.mem_cons.mp hs).resolve_right hl
        rw [ht'.same s hl]
        exact ⟨hclear, hsz⟩

/-! ## The group -/

/-- A thread of the leader, with the same memory. -/
structure Member (m : Machine) (leader t : Slot) : Prop where
  isThread : (m.proc t).isThread = true
  parent : (m.proc t).parent = some leader
  sz : (m.proc t).sz = (m.proc leader).sz
  leaf : ∀ i, i < USER_PAGES → (m.proc t).leaf i = (m.proc leader).leaf i

structure GroupInv (leader : Slot) (m : Machine) : Prop where
  isThread : (m.proc leader).isThread = false
  exact : (m.proc leader).Exact
  size : (m.proc leader).sz ≤ TRAPFRAME
  trap : ((m.proc leader).leaf USER_PAGES).isSome
  member : ∀ t ∈ m.infants leader, Member m leader t

theorem Machine.Solo.groupInv (h : m.Solo leader) : GroupInv leader m := by
  refine ⟨h.isThread, h.exact, h.size, h.trap, fun t ht => ?_⟩
  obtain ⟨j, hj⟩ := mem_infants.mp ht
  rw [h.infants j] at hj
  cases hj

namespace GroupInv

section

variable (hi : GroupInv leader m)
include hi

theorem agree : m.Agree leader :=
  ⟨hi.exact, fun j t hj _ => (hi.member t (mem_infants.mpr ⟨j, hj⟩)).sz,
    fun j t hj _ => (hi.member t (mem_infants.mpr ⟨j, hj⟩)).leaf⟩

theorem congr (h : m'.proc = m.proc) : GroupInv leader m' := by
  obtain ⟨h₁, h₂, h₃, h₄, h₅⟩ := hi
  refine ⟨by rwa [h], by rwa [h], by rwa [h], by rwa [h], fun t ht => ?_⟩
  obtain ⟨g₁, g₂, g₃, g₄⟩ := h₅ t (by rwa [Machine.infants, h] at ht)
  exact ⟨by rwa [h], by rwa [h], by rwa [h], by rwa [h]⟩

/-- The same is done to every member: `f` says what becomes of an entry. -/
theorem together {L : Slot → Prop} {f : Nat → Option Pte → Option Pte}
    (ht : Touches m m' L) (hsz : ∀ t ∈ m.infants leader ++ [leader], (m'.proc t).sz = newsz)
    (hf : ∀ t ∈ m.infants leader ++ [leader], ∀ j, (m'.proc t).leaf j = f j ((m.proc t).leaf j))
    (hexact : (m'.proc leader).Exact) (hsize : newsz ≤ TRAPFRAME)
    (htrap : ((m'.proc leader).leaf USER_PAGES).isSome) : GroupInv leader m' := by
  have hl : leader ∈ m.infants leader ++ [leader] := by simp
  refine ⟨by rw [(ht.alike leader).isThread]; exact hi.isThread, hexact, by rw [hsz leader hl]; exact hsize, htrap,
    fun t hmem => ?_⟩
  rw [ht.infants] at hmem
  have hm := hi.member t hmem
  have hin : t ∈ m.infants leader ++ [leader] := List.mem_append_left _ hmem
  refine ⟨by rw [(ht.alike t).isThread]; exact hm.isThread, by rw [(ht.alike t).parent]; exact hm.parent,
    by rw [hsz t hin, hsz leader hl], fun i hlt => ?_⟩
  rw [hf t hin, hf leader hl, hm.leaf i hlt]

theorem create {r : Int} (hrun : (m.proc leader).state = .runnable)
    (h : createThread m leader = .ok (r, m')) (hr : 0 ≤ r) : GroupInv leader m' := by
  rcases createThread_result hrun hi.isThread (r, m') h with ⟨hr', -⟩ | ⟨np, hn⟩
  · omega
  have hsz : (m'.proc leader).sz = (m.proc leader).sz := by rw [hn.caller]
  have hleaf : ∀ i, (m'.proc leader).leaf i = (m.proc leader).leaf i := fun i => by rw [hn.caller]; rfl
  refine ⟨by rw [hn.caller]; exact hi.isThread, by rw [hn.caller]; exact hi.exact, by rw [hsz]; exact hi.size,
    by rw [hleaf]; exact hi.trap, fun t ht => ?_⟩
  by_cases htn : t = np
  · subst htn
    refine ⟨hn.isThread, hn.parent, by rw [hsz, hn.sz], fun i hlt => ?_⟩
    rw [hleaf, hn.leaf i hlt]
    split
    · rfl
    · -- the leader maps no page above its size
      rename_i hge
      have hsome := hi.exact i hlt
      cases hl : (m.proc leader).leaf i with
      | none => rfl
      | some pte =>
          rw [hl] at hsome
          have := hsome.mp rfl
          simp only [pagesBelow, PGSIZE] at *; omega
  · have hm := hi.member t ((hn.mem_infants ht).resolve_left htn)
    have hne : t ≠ leader := by
      rintro rfl
      have := hm.isThread
      rw [hi.isThread] at this
      cases this
    have hsame := hn.others t htn hne
    exact ⟨by rw [hsame]; exact hm.isThread, by rw [hsame]; exact hm.parent, by rw [hsame, hsz]; exact hm.sz,
      fun i hlt => by rw [hsame, hleaf]; exact hm.leaf i hlt⟩

theorem growUp (ht : t ∈ m.infants leader) (hgrow : pgRoundUp (m.proc t).sz < newsz) :
    Ensures (growAlloc m t newsz) fun (sz, m') => sz ≠ 0 → GroupInv leader (m'.setSz t sz) := by
  have hm := hi.member t ht
  have hsize : (m.proc t).sz ≤ TRAPFRAME := hm.sz ▸ hi.size
  obtain ⟨hal, hle, hlt, hup⟩ := pgRoundUp_spec hsize
  have hl : leader ∈ m.infants leader ++ [leader] := by simp
  simp only [growAlloc, hm.isThread, if_true, uvmthreadedAlloc, if_neg (show ¬ newsz < (m.proc t).sz by omega),
    hm.parent]
  refine ((threadedLoop_fills hal).and (threadedLoop_touches (L := fun _ => True) trivial fun _ _ =>
    ⟨trivial, fun _ _ => trivial⟩)).bind fun (b, m₁) ⟨hfill, htouch⟩ => .ok fun hsz => ?_
  cases b with
  | false => exact absurd rfl hsz
  | true =>
      obtain ⟨page, hpage⟩ := hfill rfl
      have hn : pagesBelow (pgRoundUp (m.proc t).sz) newsz ≠ 0 := by simp only [pagesBelow, PGSIZE]; omega
      simp only [if_neg hn] at hpage
      refine GroupInv.congr (m := m₁) ?_ (setSz_self (hpage t (List.mem_append_left _ ht)).2)
      obtain ⟨hfl, hszl⟩ := hpage leader hl
      -- the trapframe of the leader is in the way of a page above it
      have hbound : pgRoundUp (m.proc t).sz / PGSIZE + pagesBelow (pgRoundUp (m.proc t).sz) newsz ≤ USER_PAGES := by
        by_contra hgt
        have hnone := hfl.absent USER_PAGES (Nat.div_le_div_right hup) (by omega)
        have htrap := hi.trap
        rw [hnone] at htrap
        cases htrap
      have hnew : newsz ≤ TRAPFRAME := by
        simp only [pagesBelow, USER_PAGES, TRAPFRAME, TRAMPOLINE, MAXVA, PGSIZE] at hbound hal ⊢; omega
      refine hi.together htouch (fun u hu => (hpage u hu).2)
        (f := fun j o => if pgRoundUp (m.proc t).sz / PGSIZE ≤ j ∧
          j < pgRoundUp (m.proc t).sz / PGSIZE + pagesBelow (pgRoundUp (m.proc t).sz) newsz then some (page j) else o)
        (fun u hu => (hpage u hu).1.leaf) (fun i hi' => ?_) hnew ?_
      · rw [hfl.leaf, hszl]
        have hold := hi.exact i hi'
        rw [← hm.sz] at hold
        split
        · simp only [Option.isSome_some, true_iff]
          simp only [pagesBelow, PGSIZE] at *; omega
        · rw [hold]
          simp only [pagesBelow, PGSIZE] at *; omega
      · rw [hfl.leaf, if_neg (by omega)]; exact hi.trap

theorem growDown (ht : t ∈ m.infants leader) (hless : newsz < (m.proc t).sz) :
    Ensures (growDealloc m t newsz) fun (sz, m') => GroupInv leader (m'.setSz t sz) := by
  have hm := hi.member t ht
  have hsize : (m.proc t).sz ≤ TRAPFRAME := hm.sz ▸ hi.size
  obtain ⟨hal, hle, hlt, hup⟩ := pgRoundUp_spec hsize
  obtain ⟨hal', hle', hlt', hup'⟩ := pgRoundUp_spec (show newsz ≤ TRAPFRAME by omega)
  have hl : leader ∈ m.infants leader ++ [leader] := by simp
  simp only [growDealloc, hm.isThread, if_true, uvmthreadedDealloc,
    if_neg (show ¬ (m.proc t).sz ≤ newsz by omega), hm.parent]
  set npages := (pgRoundUp (m.proc t).sz - pgRoundUp newsz) / PGSIZE with hnp
  refine (unmapThreads_clears.and (unmapThreads_touches (L := (· ∈ m.infants leader)) fun _ h => h)).bind
    fun m₁ ⟨hc₁, ht₁⟩ => ?_
  refine (unmapThread_clears.and (unmapThread_touches (L := (· = leader)) rfl)).bind fun m₂ ⟨hc₂, ht₂⟩ => .ok ?_
  have hnot : leader ∉ m.infants leader := by
    intro h
    have := (hi.member leader h).isThread
    rw [hi.isThread] at this
    cases this
  have htl : t ≠ leader := fun h => hnot (h ▸ ht)
  set m₃ := m₂.setSz leader newsz with hm₃
  have ht₃ : Touches m₁ m₃ (· = leader) := ht₂.trans (.setSz rfl)
  have hclear : ∀ u ∈ m.infants leader ++ [leader],
      Cleared (m.proc u) (m₃.proc u) (pgRoundUp newsz / PGSIZE) npages ∧ (m₃.proc u).sz = newsz := by
    intro u hu
    rcases List.mem_append.mp hu with hu | hu
    · rw [ht₃.same u fun h => hnot (h ▸ hu)]
      exact hc₁ u hu
    · obtain rfl := List.mem_singleton.mp hu
      rw [ht₁.same u hnot] at hc₂
      refine ⟨?_, ?_⟩
      · simpa only [Cleared, Proc.leaf, hm₃, Machine.setSz, Machine.setProc, Function.update_self] using hc₂
      · simp only [hm₃, Machine.setSz, Machine.setProc, Function.update_self]
  refine GroupInv.congr (m := m₃) ?_ (setSz_self (hclear t (List.mem_append_left _ ht)).2)
  obtain ⟨hcl, hszl⟩ := hclear leader hl
  refine hi.together ((ht₁.mono fun _ _ => trivial).trans (ht₃.mono fun _ _ => trivial)) (L := fun _ => True)
    (fun u hu => (hclear u hu).2)
    (f := fun j o => if pgRoundUp newsz / PGSIZE ≤ j ∧ j < pgRoundUp newsz / PGSIZE + npages then none else o)
    (fun u hu => (hclear u hu).1) (fun i hi' => ?_) (by omega) ?_
  · rw [hcl i, hszl]
    have hold := hi.exact i hi'
    rw [← hm.sz] at hold
    split
    · simp only [Option.isSome_none, Bool.false_eq_true, false_iff]
      simp only [PGSIZE] at *; omega
    · rw [hold]
      simp only [PGSIZE] at *; omega
  · rw [hcl, if_neg]
    · exact hi.trap
    · simp only [hnp, USER_PAGES, PGSIZE] at *; omega

end

end GroupInv

theorem onTable_same {α : Type} {f : Kmem → PageTable → Except Stop (α × Kmem × PageTable)} {r : α}
    (hf : ∀ k pt, f k pt = .ok (r, k, pt)) :
    Ensures (m.onTable s f) fun (r', m') => r' = r ∧ m'.proc = m.proc := by
  refine (onTable_spec (Q := fun pt r' pt' => r' = r ∧ pt' = pt) fun pt _ => ?_).mono ?_
  · rw [hf]; exact .ok ⟨rfl, rfl⟩
  · rintro ⟨r', m'⟩ ⟨-, pt, pt', hpt, ⟨hr, rfl⟩, hp⟩
    refine ⟨hr, ?_⟩
    rw [hp, ← hpt]
    exact Function.update_eq_self s m.proc

theorem growproc_staysPut {n : Int} (h : staysPut (m.proc s).sz n = true) :
    Ensures (growproc m s n) fun (_, m') => m'.proc = m.proc := by
  have hput : ∀ {sz : Nat} {m₁ : Machine}, sz = (m.proc s).sz ∧ m₁.proc = m.proc →
      (m₁.setSz s sz).proc = m.proc := by
    rintro sz m₁ ⟨rfl, hp⟩
    rw [setSz_self (by rw [hp]), hp]
  simp only [staysPut, decide_eq_true_eq] at h
  unfold growproc
  dsimp only
  split
  · have hless : grownSize (m.proc s).sz n < (m.proc s).sz := by omega
    have halloc : Ensures (growAlloc m s (grownSize (m.proc s).sz n))
        fun (sz, m') => sz = (m.proc s).sz ∧ m'.proc = m.proc := by
      unfold growAlloc
      dsimp only
      split
      · rw [uvmthreadedAlloc, if_pos hless]; exact .ok ⟨rfl, rfl⟩
      · exact onTable_same fun k pt => by rw [uvmalloc, uvmallocTo, if_pos hless]; rfl
    refine halloc.bind fun (sz, m₁) h₁ => ?_
    dsimp only
    split
    · exact .ok h₁.2
    · exact .ok (hput h₁)
  · split
    · have hmore : (m.proc s).sz ≤ grownSize (m.proc s).sz n := by omega
      have hdealloc : Ensures (growDealloc m s (grownSize (m.proc s).sz n))
          fun (sz, m') => sz = (m.proc s).sz ∧ m'.proc = m.proc := by
        unfold growDealloc
        dsimp only
        split
        · rw [uvmthreadedDealloc, if_pos hmore]; exact .ok ⟨rfl, rfl⟩
        · exact onTable_same fun k pt => by rw [uvmdealloc, if_pos hmore]
      exact hdealloc.bind fun (sz, m₁) h₁ => .ok (hput h₁)
    · exact .ok rfl

/-! ## Runs -/

theorem GroupInv.grow {n r : Int} (hi : GroupInv leader m) (hmem : t = leader ∨ t ∈ m.infants leader)
    (hg : GrowsTogether m (.grow t n)) (h : growproc m t n = .ok (r, m')) (hr : r = 0) : GroupInv leader m' := by
  by_cases hput : staysPut (m.proc t).sz n = true
  · exact hi.congr (growproc_staysPut hput _ h)
  obtain ⟨hthread, hn⟩ := hg.resolve_left hput
  have ht : t ∈ m.infants leader := by
    refine hmem.resolve_left ?_
    rintro rfl
    rw [hi.isThread] at hthread
    cases hthread
  have hens : Ensures (growproc m t n) fun (r, m') => r = 0 → GroupInv leader m' := by
    simp only [staysPut, decide_eq_true_eq] at hput
    unfold growproc
    dsimp only
    split
    · refine (hi.growUp ht (by omega)).bind fun (sz, m₁) h₁ => ?_
      dsimp only
      split
      · exact .ok fun h : (-1 : Int) = 0 => absurd h (by decide)
      · rename_i hsz; exact .ok fun _ => h₁ hsz
    · split
      · exact (hi.growDown ht (by omega)).bind fun (sz, m₁) h₁ => .ok fun _ => h₁
      · omega
  exact hens _ h hr

theorem groupStep_groupInv {a : GroupAct} (hi : GroupInv leader m) (hg : GrowsTogether m a)
    (h : groupStep leader m a = some m') : GroupInv leader m' := by
  cases a with
  | create =>
      simp only [groupStep] at h
      split at h
      · rename_i r m₁ hc
        split at h
        · rename_i hr
          cases h
          exact hi.create hr.1 hc hr.2
        · cases h
      · cases h
  | grow t n =>
      simp only [groupStep] at h
      split at h
      · rename_i r m₁ hc
        split at h
        · rename_i hr
          cases h
          exact hi.grow hr.1 hg hc hr.2.2
        · cases h
      · cases h

end Xv6Net.Procs
