import Mathlib.Data.List.Nodup
import Xv6Net.User.Ithreads

/-!
# The blocks and the counters of `user/ithreads.c`

The blocks are right in every run: what is in `stacks` is allocated, and each block is there once. That the threads of the
process are the created ones that are not counted in `threads_done` holds as long as every join succeeds.
-/

namespace Xv6Net.User

open Kernel Lib

variable {g : Ithreads} {log : List Event} {e : Event} {block : Nat} {threadId res : Int}

/-! ## Logs -/

theorem FreesOnce.cons (h : FreesOnce log) (he : ∀ block, e ≠ .free block) : FreesOnce (e :: log) := by
  intro block
  rw [List.count_cons_of_ne (he block)]
  exact h block

theorem FreesOnce.free (h : FreesOnce log) (hnew : .free block ∉ log) : FreesOnce (.free block :: log) := by
  intro b
  by_cases hb : b = block
  · subst hb
    have hcount : (Event.free b :: log).count (.free b) = 1 := by
      rw [List.count_cons_self, List.count_eq_zero.mpr hnew]
    exact Nat.le_of_eq hcount
  · rw [List.count_cons_of_ne (fun he => hb (Event.free.inj he).symm)]
    exact h b

theorem FreesOnce.frees {blocks : List Nat} (h : FreesOnce log) (hnodup : blocks.Nodup)
    (hnew : ∀ b ∈ blocks, .free b ∉ log) : FreesOnce ((blocks.map .free).reverse ++ log) := by
  induction blocks generalizing log with
  | nil => exact h
  | cons b bs ih =>
      obtain ⟨hb, hbs⟩ := List.nodup_cons.mp hnodup
      rw [List.map_cons, List.reverse_cons, List.append_assoc]
      refine ih (h.free (hnew b List.mem_cons_self)) hbs fun b' hb' hmem => ?_
      rcases List.mem_cons.mp hmem with he | hmem
      · cases he
        exact hb hb'
      · exact hnew b' (List.mem_cons_of_mem b hb') hmem

theorem StacksOutlive.cons (h : StacksOutlive log) (hfree : ∀ block, e ≠ .free block)
    (hmade : ∀ threadId block, e ≠ .created threadId block) : StacksOutlive (e :: log) := by
  intro block before id hbefore hcreated
  rcases List.suffix_cons_iff.mp hbefore with he | hbefore
  · cases he
    exact absurd rfl (hfree block)
  · rcases List.mem_cons.mp hcreated with he | hcreated
    · exact absurd he.symm (hmade id block)
    · exact h block before id hbefore hcreated

theorem StacksOutlive.created (h : StacksOutlive log) (hnew : .free block ∉ log) :
    StacksOutlive (.created threadId block :: log) := by
  intro b before id hbefore hcreated
  rcases List.suffix_cons_iff.mp hbefore with he | hbefore
  · cases he
  · rcases List.mem_cons.mp hcreated with he | hcreated
    · cases he
      exact absurd (hbefore.subset List.mem_cons_self) hnew
    · exact h b before id hbefore hcreated

theorem StacksOutlive.free (h : StacksOutlive log) (hjoined : ∀ id, .created id block ∈ log → .joined id ∈ log) :
    StacksOutlive (.free block :: log) := by
  intro b before id hbefore hcreated
  rcases List.mem_cons.mp hcreated with he | hcreated
  · cases he
  · rcases List.suffix_cons_iff.mp hbefore with he | hbefore
    · cases he
      exact hjoined id hcreated
    · exact h b before id hbefore hcreated

theorem StacksOutlive.frees (h : StacksOutlive log) (hjoined : ∀ id b, .created id b ∈ log → .joined id ∈ log)
    (blocks : List Nat) : StacksOutlive ((blocks.map .free).reverse ++ log) := by
  induction blocks generalizing log with
  | nil => exact h
  | cons b bs ih =>
      rw [List.map_cons, List.reverse_cons, List.append_assoc]
      refine ih (h.free fun id => hjoined id b) fun id b' hmem => ?_
      rcases List.mem_cons.mp hmem with he | hmem
      · cases he
      · exact List.mem_cons_of_mem _ (hjoined id b' hmem)

theorem StoresFit.cons (h : StoresFit log) (he : ∀ index size, e ≠ .store index size) : StoresFit (e :: log) := by
  intro index size hmem
  rcases List.mem_cons.mp hmem with hmem | hmem
  · exact absurd hmem.symm (he index size)
  · exact h index size hmem

theorem StoresFit.store {i n : Nat} (h : StoresFit log) (hfit : (i + 1) * PTR_SIZE ≤ n) :
    StoresFit (.store i n :: log) := by
  intro index size hmem
  rcases List.mem_cons.mp hmem with hmem | hmem
  · cases hmem
    exact hfit
  · exact h index size hmem

/-! ## Blocks -/

/-- The block was handed out and not freed. -/
def Ithreads.Live (g : Ithreads) (block : Nat) : Prop := 0 < block ∧ block < g.next ∧ .free block ∉ g.log

/-- The first `numThreads` entries of `stacks` are blocks of their own. -/
structure Stacked (g : Ithreads) : Prop where
  live : ∀ i < g.numThreads, g.Live (g.entries g.stackArray i) ∧ g.entries g.stackArray i ≠ g.stackArray
  distinct : ∀ i < g.numThreads, ∀ j < g.numThreads, g.entries g.stackArray i = g.entries g.stackArray j → i = j

structure Blocks (g : Ithreads) : Prop where
  once : FreesOnce g.log
  fit : StoresFit g.log
  freed : ∀ block, .free block ∈ g.log → block < g.next
  made : ∀ threadId block, .created threadId block ∈ g.log → 0 < block ∧ block < g.next ∧ block ≠ g.stackArray
  next : 0 < g.next
  room : g.numThreads ≤ g.maxStacks ∧ 0 < g.maxStacks
  array : g.stackArray = 0 ∧ g.numThreads = 0 ∨ g.Live g.stackArray ∧ g.size g.stackArray = g.maxStacks * PTR_SIZE
  stacked : Stacked g

namespace Blocks

theorem start : Blocks .start where
  once := by intro block; exact Nat.zero_le _
  fit := nofun
  freed := nofun
  made := nofun
  next := Nat.zero_lt_one
  room := ⟨Nat.zero_le _, by decide⟩
  array := .inl ⟨rfl, rfl⟩
  stacked := ⟨nofun, nofun⟩

section

variable (h : Blocks g)
include h

theorem fresh : .free g.next ∉ g.log := fun hmem => Nat.lt_irrefl _ (h.freed _ hmem)

theorem malloc (size : Nat) : Blocks (g.malloc size).2 := by
  have hlive : ∀ {b}, g.Live b → (g.malloc size).2.Live b := fun ⟨hpos, hlt, hnot⟩ => ⟨hpos, Nat.lt_succ_of_lt hlt, hnot⟩
  refine ⟨h.once, h.fit, fun b hb => Nat.lt_succ_of_lt (h.freed b hb), fun id b hb => ?_, Nat.succ_pos _, h.room, ?_, ?_⟩
  · obtain ⟨hpos, hlt, hne⟩ := h.made id b hb
    exact ⟨hpos, Nat.lt_succ_of_lt hlt, hne⟩
  · refine h.array.imp id fun ⟨hl, hsize⟩ => ⟨hlive hl, ?_⟩
    exact (Function.update_of_ne (Nat.ne_of_lt hl.2.1) ..).trans hsize
  · exact ⟨fun i hi => (h.stacked.live i hi).imp_left hlive, h.stacked.distinct⟩

/-- An entry behind those of the threads is written. -/
theorem storeStack (hs : g.stackArray ≠ 0) {i : Nat} (hi : g.numThreads ≤ i) (hroom : i < g.maxStacks) (p : Nat) :
    Blocks (g.storeStack i p) := by
  obtain ⟨hlive, hsize⟩ := h.array.resolve_left fun hz => hs hz.1
  have hkeep : ∀ {b}, g.Live b → (g.storeStack i p).Live b := fun ⟨hpos, hlt, hnot⟩ => ⟨hpos, hlt, by
    simpa [Ithreads.storeStack, Ithreads.record] using hnot⟩
  have hentry : ∀ j < g.numThreads, (g.storeStack i p).entries g.stackArray j = g.entries g.stackArray j := by
    intro j hj
    simp only [Ithreads.storeStack, Ithreads.record, Function.update_self]
    exact Function.update_of_ne (by omega) ..
  refine ⟨h.once.cons nofun, h.fit.store ?_, fun b hb => h.freed b ?_, fun id b hb => h.made id b ?_, h.next, h.room,
    .inr ⟨hkeep hlive, hsize⟩, fun j hj => ?_, fun j hj l hl he => ?_⟩
  · rw [hsize]
    exact Nat.mul_le_mul_right _ hroom
  · simpa [Ithreads.storeStack, Ithreads.record] using hb
  · simpa [Ithreads.storeStack, Ithreads.record] using hb
  · change (g.storeStack i p).Live ((g.storeStack i p).entries g.stackArray j) ∧ _
    rw [hentry j hj]
    exact (h.stacked.live j hj).imp hkeep fun hne => (hentry j hj).trans_ne hne
  · refine h.stacked.distinct j hj l hl ?_
    rw [← hentry j hj, ← hentry l hl]
    exact he

/-- A block that is in no entry is freed. -/
theorem free (hlive : g.Live block) (hs : block ≠ g.stackArray)
    (hentry : ∀ i < g.numThreads, g.entries g.stackArray i ≠ block) : Blocks (g.record (.free block)) := by
  have hkeep : ∀ {b}, b ≠ block → g.Live b → (g.record (.free block)).Live b := by
    intro b hne ⟨hpos, hlt, hnot⟩
    exact ⟨hpos, hlt, by simp [Ithreads.record, hne, hnot]⟩
  refine ⟨h.once.free hlive.2.2, h.fit.cons nofun, fun b hb => ?_, fun id b hb => h.made id b ?_, h.next, h.room, ?_,
    fun i hi => ?_, h.stacked.distinct⟩
  · rcases List.mem_cons.mp hb with he | hb
    · cases he
      exact hlive.2.1
    · exact h.freed b hb
  · simpa [Ithreads.record] using hb
  · exact h.array.imp id fun ⟨hl, hsize⟩ => ⟨hkeep (Ne.symm hs) hl, hsize⟩
  · exact (h.stacked.live i hi).imp_left (hkeep (hentry i hi))

theorem ensureStacks : Blocks g.ensureStacks ∧ g.ensureStacks.stackArray ≠ 0 := by
  unfold Ithreads.ensureStacks
  split
  · rename_i hs
    have hm := h.malloc (g.maxStacks * PTR_SIZE)
    have hnum : g.numThreads = 0 := by
      rcases h.array with ⟨-, hnum⟩ | ⟨hlive, -⟩
      · exact hnum
      · exact absurd hlive.1 (by omega)
    have hzero : ∀ i, ¬ i < g.numThreads := by rw [hnum]; exact fun i => Nat.not_lt_zero i
    refine ⟨⟨hm.once, hm.fit, hm.freed, fun id b hb => ?_, hm.next, hm.room, .inr ⟨⟨h.next, Nat.lt_succ_self _, h.fresh⟩, ?_⟩,
      fun i hi => absurd hi (hzero i), fun i hi => absurd hi (hzero i)⟩, Nat.ne_of_gt h.next⟩
    · obtain ⟨hpos, hlt, -⟩ := h.made id b hb
      exact ⟨hpos, Nat.lt_succ_of_lt hlt, Nat.ne_of_lt hlt⟩
    · exact Function.update_self ..
  · rename_i hs
    exact ⟨h, hs⟩

/-- The array that is left is no entry of the new one. -/
theorem expandNumThreads (hs : g.stackArray ≠ 0) :
    Blocks g.expandNumThreads ∧ g.expandNumThreads.stackArray ≠ 0 := by
  obtain ⟨⟨hpos, hlt, hnot⟩, -⟩ := h.array.resolve_left fun hz => hs hz.1
  have hne : g.next ≠ g.stackArray := Nat.ne_of_gt hlt
  have hkeep : ∀ {b}, b ≠ g.stackArray → g.Live b → g.expandNumThreads.Live b := by
    intro b hb ⟨hpos, hlt, hnot⟩
    exact ⟨hpos, Nat.lt_succ_of_lt hlt, by simp [Ithreads.expandNumThreads, Ithreads.malloc, Ithreads.record, hb, hnot]⟩
  have hentry : ∀ i < g.numThreads, g.expandNumThreads.entries g.next i = g.entries g.stackArray i := by
    intro i hi
    simp [Ithreads.expandNumThreads, Ithreads.malloc, Ithreads.record, hi]
  refine ⟨⟨h.once.free hnot, h.fit.cons nofun, fun b hb => ?_, fun id b hb => ?_, Nat.succ_pos _, ?_, .inr ⟨⟨h.next,
    Nat.lt_succ_self _, ?_⟩, ?_⟩, fun i hi => ?_, fun i hi j hj he => ?_⟩, Nat.ne_of_gt h.next⟩
  · rcases List.mem_cons.mp hb with he | hb
    · cases he
      exact Nat.lt_succ_of_lt hlt
    · exact Nat.lt_succ_of_lt (h.freed b hb)
  · rcases List.mem_cons.mp hb with he | hb
    · cases he
    · obtain ⟨hpos, hlt, -⟩ := h.made id b hb
      exact ⟨hpos, Nat.lt_succ_of_lt hlt, Nat.ne_of_lt hlt⟩
  · obtain ⟨hle, hpos⟩ := h.room
    exact ⟨Nat.le_trans hle (Nat.le_mul_of_pos_right _ (by decide)), Nat.mul_pos hpos (by decide)⟩
  · exact fun hmem => (List.mem_cons.mp hmem).elim (fun he => hne (Event.free.inj he)) h.fresh
  · exact Function.update_self ..
  · change g.expandNumThreads.Live (g.expandNumThreads.entries g.next i) ∧ g.expandNumThreads.entries g.next i ≠ g.next
    rw [hentry i hi]
    obtain ⟨hlive, hns⟩ := h.stacked.live i hi
    exact ⟨hkeep hns hlive, Nat.ne_of_lt hlive.2.1⟩
  · refine h.stacked.distinct i hi j hj ?_
    rw [← hentry i hi, ← hentry j hj]
    exact he

/-- The entry behind those of the threads becomes that of a new thread. -/
theorem created (hs : g.stackArray ≠ 0) (hroom : g.numThreads < g.maxStacks) (hlive : g.Live block)
    (hne : block ≠ g.stackArray) (hself : g.entries g.stackArray g.numThreads = block)
    (hother : ∀ i < g.numThreads, g.entries g.stackArray i ≠ block) :
    Blocks { g.record (.created res block) with numThreads := g.numThreads + 1, threads := res :: g.threads } := by
  obtain ⟨harray, hsize⟩ := h.array.resolve_left fun hz => hs hz.1
  have hkeep : ∀ {b}, g.Live b → (g.record (.created res block)).Live b := fun ⟨hpos, hlt, hnot⟩ =>
    ⟨hpos, hlt, by simpa [Ithreads.record] using hnot⟩
  refine ⟨h.once.cons nofun, h.fit.cons nofun, fun b hb => h.freed b ?_, fun id b hb => ?_, h.next, ⟨hroom, h.room.2⟩,
    .inr ⟨hkeep harray, hsize⟩, fun i hi => ?_, fun i hi j hj he => ?_⟩
  · simpa [Ithreads.record] using hb
  · rcases List.mem_cons.mp hb with he | hb
    · cases he
      exact ⟨hlive.1, hlive.2.1, hne⟩
    · exact h.made id b hb
  · rcases Nat.lt_succ_iff_lt_or_eq.mp hi with hi | rfl
    · exact (h.stacked.live i hi).imp_left hkeep
    · exact ⟨hkeep (hself ▸ hlive), hself ▸ hne⟩
  · rcases Nat.lt_succ_iff_lt_or_eq.mp hi with hi | rfl <;> rcases Nat.lt_succ_iff_lt_or_eq.mp hj with hj | rfl
    · exact h.stacked.distinct i hi j hj he
    · exact absurd (Eq.trans he hself) (hother i hi)
    · exact absurd (Eq.trans (Eq.symm he) hself) (hother j hj)
    · rfl

theorem startThread (hs : g.stackArray ≠ 0) (hroom : g.numThreads < g.maxStacks) :
    Blocks (g.startThread res) := by
  have hst := (h.malloc PGSIZE).storeStack hs (Nat.le_refl _) hroom g.next
  obtain ⟨⟨-, hlt, -⟩, -⟩ := h.array.resolve_left fun hz => hs hz.1
  have hne : g.next ≠ g.stackArray := Nat.ne_of_gt hlt
  have hlive : ((g.malloc PGSIZE).2.storeStack g.numThreads g.next).Live g.next :=
    ⟨h.next, Nat.lt_succ_self _, by simpa [Ithreads.storeStack, Ithreads.record, Ithreads.malloc] using h.fresh⟩
  have hself : ((g.malloc PGSIZE).2.storeStack g.numThreads g.next).entries g.stackArray g.numThreads = g.next := by
    simp [Ithreads.storeStack, Ithreads.record, Ithreads.malloc]
  -- the entries of the other threads are older
  have hother : ∀ i < g.numThreads,
      ((g.malloc PGSIZE).2.storeStack g.numThreads g.next).entries g.stackArray i ≠ g.next := by
    intro i hi
    simp only [Ithreads.storeStack, Ithreads.record, Ithreads.malloc, Function.update_self]
    rw [Function.update_of_ne (Nat.ne_of_lt hi)]
    exact Nat.ne_of_lt (h.stacked.live i hi).1.2.1
  unfold Ithreads.startThread
  dsimp only
  split
  · exact hst.created hs hroom hlive hne hself hother
  · exact (hst.free hlive hne hother).storeStack hs (Nat.le_refl _) hroom 0

theorem ithreadCreate : Blocks (g.ithreadCreate res).2 := by
  obtain ⟨h₁, hs₁⟩ := h.ensureStacks
  unfold Ithreads.ithreadCreate
  dsimp only
  split
  · rename_i hfull
    split
    · exact h₁
    · obtain ⟨h₂, hs₂⟩ := h₁.expandNumThreads hs₁
      refine h₂.startThread hs₂ ?_
      have hpos := h₁.room.2
      change g.ensureStacks.numThreads < g.ensureStacks.maxStacks * 2
      omega
  · rename_i hfull
    exact h₁.startThread hs₁ (Nat.lt_of_le_of_ne h₁.room.1 hfull)

end

end Blocks

/-! ## The stacks are freed -/

theorem Ithreads.freeEach_eq (g : Ithreads) (is : List Nat) :
    g.freeEach is = { g with log := (is.map fun i => .free (g.entries g.stackArray i)).reverse ++ g.log } := by
  induction is generalizing g with
  | nil => rfl
  | cons i is ih =>
      rw [freeEach, ih, record]
      simp

/-- The blocks that `free_stacks` frees, in this order. -/
def Ithreads.stackBlocks (g : Ithreads) : List Nat := (List.range g.numThreads).map (g.entries g.stackArray) ++ [g.stackArray]

theorem Ithreads.freeStacks_eq (g : Ithreads) :
    g.freeStacks = { g with
      log := (g.stackBlocks.map .free).reverse ++ g.log, stackArray := 0, numThreads := 0, maxStacks := INIT_MAX_STACKS,
      threadsDone := 0 } := by
  rw [freeStacks, freeEach_eq, record, stackBlocks]
  simp [Function.comp_def]

namespace Blocks

theorem mem_stackBlocks (h : Blocks g) (hs : g.stackArray ≠ 0) (hb : block ∈ g.stackBlocks) : g.Live block := by
  rcases List.mem_append.mp hb with hb | hb
  · obtain ⟨i, hi, rfl⟩ := List.mem_map.mp hb
    exact (h.stacked.live i (List.mem_range.mp hi)).1
  · obtain rfl := List.mem_singleton.mp hb
    exact (h.array.resolve_left fun hz => hs hz.1).1

theorem stackBlocks_nodup (h : Blocks g) : g.stackBlocks.Nodup := by
  refine List.nodup_append.mpr ⟨?_, List.nodup_singleton _, ?_⟩
  · refine List.Nodup.map_on (fun i hi j hj he => ?_) List.nodup_range
    exact h.stacked.distinct i (List.mem_range.mp hi) j (List.mem_range.mp hj) he
  · intro b hb b' hb'
    obtain ⟨i, hi, rfl⟩ := List.mem_map.mp hb
    obtain rfl := List.mem_singleton.mp hb'
    exact (h.stacked.live i (List.mem_range.mp hi)).2

theorem mem_log_of_frees {blocks : List Nat} (he : ∀ block, e ≠ .free block)
    (hmem : e ∈ (blocks.map .free).reverse ++ log) : e ∈ log := by
  rcases List.mem_append.mp hmem with hmem | hmem
  · obtain ⟨b, -, rfl⟩ := List.mem_map.mp (List.mem_reverse.mp hmem)
    exact absurd rfl (he b)
  · exact hmem

theorem freeStacks (h : Blocks g) (hs : g.stackArray ≠ 0) : Blocks g.freeStacks := by
  rw [Ithreads.freeStacks_eq]
  refine ⟨h.once.frees h.stackBlocks_nodup fun b hb => (h.mem_stackBlocks hs hb).2.2, fun index size hmem => ?_,
    fun b hmem => ?_, fun id b hmem => ?_, h.next,
    ⟨Nat.zero_le _, show 0 < INIT_MAX_STACKS by decide⟩, .inl ⟨rfl, rfl⟩, nofun, nofun⟩
  · exact h.fit index size (mem_log_of_frees nofun hmem)
  · rcases List.mem_append.mp hmem with hmem | hmem
    · obtain ⟨b', hb', he⟩ := List.mem_map.mp (List.mem_reverse.mp hmem)
      cases he
      exact (h.mem_stackBlocks hs hb').2.1
    · exact h.freed b hmem
  · obtain ⟨hpos, hlt, -⟩ := h.made id b (mem_log_of_frees nofun hmem)
    exact ⟨hpos, hlt, Nat.ne_of_gt hpos⟩

/-- What `ithread_join` has done before it looks at its counters. -/
theorem joinThread (h : Blocks g) (threadId : Int) :
    Blocks { (g.joinThread threadId).2 with threadsDone := (g.joinThread threadId).2.threadsDone + 1 } := by
  unfold Ithreads.joinThread
  split
  · have hkeep : ∀ {b}, g.Live b → (g.record (.joined threadId)).Live b := fun ⟨hpos, hlt, hnot⟩ =>
      ⟨hpos, hlt, by simpa [Ithreads.record] using hnot⟩
    refine ⟨h.once.cons nofun, h.fit.cons nofun, fun b hb => h.freed b ?_, fun id b hb => h.made id b ?_, h.next, h.room,
      h.array.imp id fun ⟨hlive, hsize⟩ => ⟨hkeep hlive, hsize⟩, fun i hi => (h.stacked.live i hi).imp_left hkeep,
      h.stacked.distinct⟩
    · simpa [Ithreads.record] using hb
    · simpa [Ithreads.record] using hb
  · exact ⟨h.once, h.fit, h.freed, h.made, h.next, h.room, h.array, h.stacked.live, h.stacked.distinct⟩

theorem ithreadJoin (h : Blocks g) (threadId : Int) : Blocks (g.ithreadJoin threadId) := by
  have hj := h.joinThread threadId
  unfold Ithreads.ithreadJoin
  dsimp only
  split
  · rename_i hdone
    refine hj.freeStacks fun hs => ?_
    rcases hj.array with ⟨-, hnum⟩ | ⟨hlive, -⟩
    · exact absurd (hdone.trans hnum) (Nat.succ_ne_zero _)
    · exact Nat.lt_irrefl 0 (hs ▸ hlive.1)
  · exact hj

theorem step {c : ThreadCall} {g' : Ithreads} (h : Blocks g) (hstep : threadStep g c = some g') : Blocks g' := by
  cases c with
  | create res =>
      simp only [threadStep, Option.ite_none_right_eq_some, Option.some.injEq] at hstep
      rw [← hstep.2]
      exact h.ithreadCreate
  | join threadId =>
      cases hstep
      exact h.ithreadJoin threadId

end Blocks

/-! ## The counters -/

/-- The threads of the process are those that were created and not joined, and `threads_done` counts the others. -/
structure Counted (g : Ithreads) : Prop where
  outlive : StacksOutlive g.log
  threads : ∀ threadId block, .created threadId block ∈ g.log → .joined threadId ∈ g.log ∨ threadId ∈ g.threads
  count : g.threads.length + g.threadsDone = g.numThreads

namespace Counted

theorem start : Counted .start where
  outlive := fun _ _ _ hbefore => absurd (hbefore.subset List.mem_cons_self) (List.not_mem_nil)
  threads := nofun
  count := rfl

section

variable (h : Counted g)
include h

/-- An event that makes no thread and joins none. -/
theorem threads_cons (he : ∀ threadId block, e ≠ .created threadId block) (threadId : Int) (block : Nat)
    (hmem : .created threadId block ∈ e :: g.log) : .joined threadId ∈ e :: g.log ∨ threadId ∈ g.threads := by
  rcases List.mem_cons.mp hmem with hmem | hmem
  · exact absurd hmem.symm (he threadId block)
  · exact (h.threads threadId block hmem).imp_left (List.mem_cons_of_mem e)

theorem storeStack (i p : Nat) : Counted (g.storeStack i p) :=
  ⟨h.outlive.cons nofun nofun, h.threads_cons nofun, h.count⟩

theorem malloc (size : Nat) : Counted (g.malloc size).2 := ⟨h.outlive, h.threads, h.count⟩

/-- A block that is no stack of a thread is freed. -/
theorem free (hnone : ∀ threadId, .created threadId block ∉ g.log) : Counted (g.record (.free block)) :=
  ⟨h.outlive.free fun id hmem => absurd hmem (hnone id), h.threads_cons nofun, h.count⟩

theorem ensureStacks : Counted g.ensureStacks := by
  unfold Ithreads.ensureStacks
  split
  · exact ⟨h.outlive, h.threads, h.count⟩
  · exact h

theorem expandNumThreads (hb : Blocks g) : Counted g.expandNumThreads := by
  have hfree := h.free fun id hmem => (hb.made id g.stackArray hmem).2.2 rfl
  exact ⟨hfree.outlive, hfree.threads, hfree.count⟩

theorem created (hnew : .free block ∉ g.log) :
    Counted { g.record (.created res block) with numThreads := g.numThreads + 1, threads := res :: g.threads } := by
  refine ⟨h.outlive.created hnew, fun id b hmem => ?_, ?_⟩
  · rcases List.mem_cons.mp hmem with he | hmem
    · cases he
      exact .inr List.mem_cons_self
    · exact (h.threads id b hmem).imp (List.mem_cons_of_mem _) (List.mem_cons_of_mem _)
  · have hcount := h.count
    simp only [Ithreads.record, List.length_cons]
    omega

theorem startThread (hb : Blocks g) : Counted (g.startThread res) := by
  have hst := (h.malloc PGSIZE).storeStack g.numThreads g.next
  unfold Ithreads.startThread
  dsimp only
  split
  · refine hst.created ?_
    simpa [Ithreads.storeStack, Ithreads.record, Ithreads.malloc] using hb.fresh
  · refine (hst.free fun id hmem => ?_).storeStack _ _
    have hmade : .created id g.next ∈ g.log := by
      simpa [Ithreads.storeStack, Ithreads.record, Ithreads.malloc] using hmem
    exact Nat.lt_irrefl _ (hb.made id _ hmade).2.1

theorem ithreadCreate (hb : Blocks g) : Counted (g.ithreadCreate res).2 := by
  obtain ⟨hb₁, hs₁⟩ := hb.ensureStacks
  have h₁ := h.ensureStacks
  unfold Ithreads.ithreadCreate
  dsimp only
  split
  · split
    · exact h₁
    · exact (h₁.expandNumThreads hb₁).startThread (hb₁.expandNumThreads hs₁).1
  · exact h₁.startThread hb₁

/-- All threads are joined when the counters meet. -/
theorem freeStacks (hdone : g.threadsDone = g.numThreads) : Counted g.freeStacks := by
  have hnone : g.threads = [] := List.eq_nil_of_length_eq_zero (by have := h.count; omega)
  have hjoined : ∀ id b, .created id b ∈ g.log → .joined id ∈ g.log := by
    intro id b hmem
    refine (h.threads id b hmem).resolve_right ?_
    rw [hnone]
    exact List.not_mem_nil
  rw [Ithreads.freeStacks_eq]
  refine ⟨h.outlive.frees hjoined _, fun id b hmem => .inl ?_, ?_⟩
  · exact List.mem_append_right _ (hjoined id b (Blocks.mem_log_of_frees nofun hmem))
  · change g.threads.length + 0 = 0
    rw [hnone]
    rfl

theorem joinThread {threadId : Int} (hown : threadId ∈ g.threads) :
    Counted { (g.joinThread threadId).2 with threadsDone := (g.joinThread threadId).2.threadsDone + 1 } := by
  rw [Ithreads.joinThread, if_pos hown]
  refine ⟨h.outlive.cons nofun nofun, fun id b hmem => ?_, ?_⟩
  · by_cases he : id = threadId
    · subst he
      exact .inl List.mem_cons_self
    · have hkept : .joined id ∈ .joined threadId :: g.log ∨ id ∈ g.threads :=
        h.threads_cons (e := .joined threadId) nofun id b hmem
      exact hkept.imp_right (List.mem_erase_of_ne he).mpr
  · have hcount := h.count
    have hpos := List.length_pos_of_mem hown
    simp only [Ithreads.record, List.length_erase_of_mem hown]
    omega

theorem ithreadJoin {threadId : Int} (hown : threadId ∈ g.threads) : Counted (g.ithreadJoin threadId) := by
  have hj := h.joinThread hown
  unfold Ithreads.ithreadJoin
  dsimp only
  split
  · rename_i hdone
    exact hj.freeStacks hdone
  · exact hj

theorem step {c : ThreadCall} {g' : Ithreads} (hb : Blocks g) (hown : JoinsOwn g c)
    (hstep : threadStep g c = some g') : Counted g' := by
  cases c with
  | create res =>
      simp only [threadStep, Option.ite_none_right_eq_some, Option.some.injEq] at hstep
      rw [← hstep.2]
      exact h.ithreadCreate hb
  | join threadId =>
      cases hstep
      exact h.ithreadJoin hown

end

end Counted

end Xv6Net.User
