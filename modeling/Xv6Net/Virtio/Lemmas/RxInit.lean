import Xv6Net.Virtio.Lemmas.Rx

/-!
# The receive queue that `virtio_net_init` leaves
-/

namespace Xv6Net.Virtio

open Kernel Lib

variable {k k' : Kmem} {i : Nat} {q : Virtq}

/-- After `i` rounds of the fill loop: `i` chains are published, with pages of their own. -/
structure RxFilled (i : Nat) (q : Virtq) (k : Kmem) : Prop where
  free : ∀ j, q.free j = decide (2 * i ≤ j ∧ j < NUM)
  used : q.usedIdx = 0 ∧ q.deviceArea.idx = 0
  idx : q.driverArea.idx = .ofNat i
  ring : ∀ j, j < i → q.driverArea.ring j = 2 * j
  next : ∀ j, j < i → (q.desc (2 * j)).next = 2 * j + 1
  bufs : ∀ j l, j < i → l < i → q.rxBuf (2 * j) = q.rxBuf (2 * l) → j = l
  fresh : ∀ j, j < i → q.rxBuf (2 * j) ∉ k.freelist
  nodup : k.freelist.Nodup

theorem RxFilled.zero (hk : k.freelist.Nodup) : RxFilled 0 Virtq.zero k where
  free := fun j => by simp [Virtq.zero]
  used := ⟨rfl, rfl⟩
  idx := rfl
  ring := by simp
  next := by simp
  bufs := by simp
  fresh := by simp
  nodup := hk

theorem RxFilled.allocDesc_pair (h : RxFilled i q k) (hi : i < NUM / 2) :
    ∃ q₁ q₂, allocDesc q = (some (2 * i), q₁) ∧ allocDesc q₁ = (some (2 * i + 1), q₂) ∧
      q₂ = { q with free := q₂.free } ∧ ∀ j, q₂.free j = decide (2 * (i + 1) ≤ j ∧ j < NUM) := by
  simp only [NUM] at hi
  have h₁ := allocDesc_least (q := q) (i := 2 * i) (by simp only [NUM]; omega)
    (by rw [h.free]; simp only [NUM]; simp; omega) (fun j hj => by rw [h.free]; simp; omega)
  refine ⟨_, _, h₁, allocDesc_least (by simp only [NUM]; omega) ?_ ?_, rfl, ?_⟩
  · dsimp only
    rw [Function.update_of_ne (by omega), h.free]; simp only [NUM]; simp; omega
  · intro j hj
    dsimp only
    rcases Nat.lt_or_eq_of_le (Nat.le_of_lt_succ hj) with hlt | rfl
    · rw [Function.update_of_ne (by omega), h.free]; simp; omega
    · simp
  · intro j
    by_cases h1 : j = 2 * i + 1
    · subst h1; simp; omega
    · by_cases h2 : j = 2 * i
      · subst h2; simp
      · simp only [Function.update_of_ne h1, Function.update_of_ne h2, h.free]
        congr 1; simp only [eq_iff_iff]; omega

theorem RxFilled.round {q' : Virtq} (h : RxFilled i q k) (hi : i < NUM / 2)
    (hr : rxFill q k = .ok (q', k')) : RxFilled (i + 1) q' k' := by
  obtain ⟨q₁, q₂, e₁, e₂, hq₂, hfree⟩ := h.allocDesc_pair hi
  unfold rxFill at hr
  simp only [e₁, e₂] at hr
  split at hr
  · rename_i rxbuf k₁ hk₁
    obtain ⟨hf₁, -, -⟩ := kalloc_eq_some hk₁
    have hnd := h.nodup
    rw [hf₁, List.nodup_cons] at hnd
    have hf₂ : (kalloc k₁).2.freelist = k₁.freelist.tail := kalloc_freelist k₁
    have hidx : q₂.driverArea = q.driverArea := by rw [hq₂]
    have hdesc : q₂.desc = q.desc := by rw [hq₂]
    cases hr
    have hpage : ∀ j, j < i → q.rxBuf (2 * j) ≠ rxbuf := by
      intro j hj he
      exact h.fresh j hj (by rw [hf₁, he]; exact List.mem_cons_self)
    -- the new chain leaves the descriptors of the earlier ones alone
    have hold : ∀ j, j < i → ∀ d d' : VirtqDesc,
        Function.update (Function.update q.desc (2 * i) d) (2 * i + 1) d' (2 * j) = q.desc (2 * j) ∧
        Function.update (Function.update q.desc (2 * i) d) (2 * i + 1) d' (2 * j + 1) = q.desc (2 * j + 1) := by
      intro j hj d d'
      constructor <;> rw [Function.update_of_ne (by omega), Function.update_of_ne (by omega)]
    set q' := (Virtq.setAvail _ (2 * i)).bumpAvail with hq'
    have hnext : ∀ j, j < i + 1 → (q'.desc (2 * j)).next = 2 * j + 1 := by
      intro j hj
      simp only [hq', Virtq.bumpAvail, Virtq.setAvail, hdesc]
      rcases Nat.lt_or_eq_of_le (Nat.le_of_lt_succ hj) with hlt | rfl
      · rw [(hold j hlt _ _).1]; exact h.next j hlt
      · rw [Function.update_of_ne (by omega), Function.update_self]
    have hbuf : ∀ j, j < i + 1 → q'.rxBuf (2 * j) = if j = i then rxbuf else q.rxBuf (2 * j) := by
      intro j hj
      rw [Virtq.rxBuf, hnext j hj]
      simp only [hq', Virtq.bumpAvail, Virtq.setAvail, hdesc]
      rcases Nat.lt_or_eq_of_le (Nat.le_of_lt_succ hj) with hlt | rfl
      · rw [(hold j hlt _ _).2, if_neg (by omega), Virtq.rxBuf, h.next j hlt]
      · simp
    exact {
      free := hfree
      used := by rw [hq', hq₂]; exact h.used
      idx := by simp only [hq', Virtq.bumpAvail, Virtq.setAvail, hidx, h.idx, ofNat_succ16]
      ring := by
        intro j hj
        simp only [hq', Virtq.bumpAvail, Virtq.setAvail, hidx, h.idx, toNat_ofNat_mod_NUM]
        rw [Nat.mod_eq_of_lt (by simp only [NUM] at hi ⊢; omega)]
        rcases Nat.lt_or_eq_of_le (Nat.le_of_lt_succ hj) with hlt | rfl
        · rw [Function.update_of_ne (by omega)]; exact h.ring j hlt
        · simp
      next := hnext
      bufs := by
        intro j l hj hl he
        rw [hbuf j hj, hbuf l hl] at he
        split at he <;> split at he
        · omega
        · exact absurd he.symm (hpage l (by omega))
        · exact absurd he (hpage j (by omega))
        · exact h.bufs j l (by omega) (by omega) he
      fresh := by
        intro j hj hm
        rw [hbuf j hj, hf₂] at hm
        split at hm
        · exact hnd.1 (List.mem_of_mem_tail hm)
        · exact h.fresh j (by omega) (by rw [hf₁]; exact List.mem_cons_of_mem _ (List.mem_of_mem_tail hm))
      nodup := by rw [hf₂]; exact hnd.2.sublist (List.tail_sublist _) }
  · cases hr

theorem RxFilled.loop {n : Nat} {q' : Virtq} (h : RxFilled i q k) (hi : i + n ≤ NUM / 2)
    (hr : rxFillLoop n q k = .ok (q', k')) : RxFilled (i + n) q' k' := by
  induction n generalizing i q k with
  | zero => cases hr; exact h
  | succ n ih =>
      simp only [rxFillLoop] at hr
      cases hf : rxFill q k with
      | error e => rw [hf] at hr; cases hr
      | ok p =>
          rw [hf] at hr
          have := ih (h.round (by omega) hf) (by omega) hr
          rwa [Nat.add_right_comm, Nat.add_assoc] at this

/-- The invariant holds when `virtio_net_init` is done, and the four buffers are different pages. -/
theorem RxInv.boot (hk : k.freelist.Nodup) (hq : rxInit k = .ok (q, k')) (mem : Nat → List UInt8) :
    RxInv q.desc (RxSys.boot q mem) ∧ ∀ g ∈ rxHeads, ∀ h ∈ rxHeads, q.rxBuf g = q.rxBuf h → g = h := by
  have h : RxFilled 4 q k' := (RxFilled.zero hk).loop (n := NUM / 2) (by decide) hq
  have hlog : (RxSys.boot q mem).availLog = rxHeads := by simp [RxSys.availLog, RxSys.boot]
  constructor
  · exact {
      desc_eq := rfl
      next_used := h.used.1
      used_idx := h.used.2
      handling_eq := rfl
      pfx := List.prefix_rfl
      used_ring := by intro i x _ hx; simp [RxSys.boot] at hx
      avail := by
        rw [hlog]
        refine ⟨h.idx, ?_, Nat.zero_le _, by simp [RxSys.boot]⟩
        intro i x _ hx
        simp only [rxHeads, List.getElem?_map, Option.map_eq_some_iff, List.getElem?_eq_some_iff] at hx
        obtain ⟨j, ⟨hj, rfl⟩, rfl⟩ := hx
        simp only [NUM, List.length_range, List.getElem_range] at hj ⊢
        rw [Nat.mod_eq_of_lt (by omega)]
        exact h.ring i (by omega)
      publish_slot := by intro id hid; cases hid }
  · intro g hg l hl he
    simp only [rxHeads, List.mem_map, List.mem_range, NUM] at hg hl
    obtain ⟨i, hi, rfl⟩ := hg
    obtain ⟨j, hj, rfl⟩ := hl
    rw [h.bufs i j (by omega) (by omega) he]

end Xv6Net.Virtio
