import Xv6Net.Virtio.Tx

/-!
# Descriptors and the lock among concurrent calls

In every interleaving each descriptor a call is going to use or to free is taken and belongs to that call alone, and
at most one call is in the locked section. Nothing here depends on what the device does.
-/

namespace Xv6Net.Virtio

open Kernel Lib

/-- The table after the two calls of `alloc_desc` of a call that is dropped: no descriptor was free, or a single one,
which stays taken. -/
def DropsTo (q q' : Virtq) : Prop :=
  q' = q ∧ (∀ d, d < NUM → q.free d = false) ∨
    ∃ hdr, hdr < NUM ∧ q.free hdr = true ∧ (∀ d, d < NUM → d ≠ hdr → q.free d = false) ∧
      q' = { q with free := Function.update q.free hdr false }

theorem DropsTo.frame {q q' : Virtq} (h : DropsTo q q') :
    q'.desc = q.desc ∧ q'.driverArea = q.driverArea ∧ q'.deviceArea = q.deviceArea ∧
      ∀ d, q.free d = false → q'.free d = false := by
  rcases h with ⟨rfl, -⟩ | ⟨hdr, -, -, -, rfl⟩
  · exact ⟨rfl, rfl, rfl, fun _ hd => hd⟩
  · refine ⟨rfl, rfl, rfl, fun d hd => ?_⟩
    simp only [Function.update_apply]; split <;> simp [hd]

/-- What a call enters the locked section with, case by case. -/
theorem txEnter_cases (s : TxSys) (c : Nat) :
    (∃ k, k.freelist = s.kmem.freelist.tail ∧ txEnter s c = { s with kmem := k, lock := some c }.setPc c
        (.panicked (.panic "failed to allocate header\n"))) ∨
    (∃ page k q, s.kmem.freelist = page :: k.freelist ∧ DropsTo s.q q ∧
      txEnter s c = { s with
        kmem := k, mem := Function.update s.mem page (List.replicate PGSIZE 0), q := q }.setPc c .dropped) ∨
    (∃ page k hdr pkt, s.kmem.freelist = page :: k.freelist ∧ hdr < NUM ∧ pkt < NUM ∧ pkt ≠ hdr ∧
      s.q.free hdr = true ∧ s.q.free pkt = true ∧ (allocDesc (allocDesc s.q).2).1 = some pkt ∧
      txEnter s c = { s with
        kmem := k
        mem := Function.update s.mem page (List.replicate PGSIZE 0)
        q := { s.q with free := Function.update (Function.update s.q.free hdr false) pkt false }
        lock := some c }.setPc c (.alloced hdr pkt page)) := by
  rcases hk : kalloc s.kmem with ⟨page | page, k⟩
  · left
    refine ⟨k, ?_, by simp [txEnter, hk]⟩
    rw [← kalloc_freelist, hk]
  · right
    have hpage := (kalloc_eq_some hk).1
    rcases h1 : allocDesc s.q with ⟨hdr | hdr, q⟩ <;> rcases h2 : allocDesc q with ⟨pkt | pkt, q'⟩
    · obtain ⟨hq, hnone⟩ := allocDesc_eq_none h1
      obtain ⟨hq', -⟩ := allocDesc_eq_none h2
      exact Or.inl ⟨page, k, q', hpage, Or.inl ⟨hq'.trans hq, hnone⟩, by simp [txEnter, hk, h1, h2]⟩
    · obtain ⟨rfl, -⟩ := allocDesc_eq_none h1
      rw [h1] at h2; cases h2
    · obtain ⟨hlt, hf, rfl⟩ := allocDesc_eq_some h1
      obtain ⟨rfl, hnone⟩ := allocDesc_eq_none h2
      refine Or.inl ⟨page, k, _, hpage, Or.inr ⟨hdr, hlt, hf, fun d hd hne => ?_, rfl⟩,
        by simp [txEnter, hk, h1, h2]⟩
      simpa only [Function.update_of_ne hne] using hnone d hd
    · obtain ⟨hlt, hf, rfl⟩ := allocDesc_eq_some h1
      obtain ⟨hlt', hf', rfl⟩ := allocDesc_eq_some h2
      have hne : pkt ≠ hdr := by rintro rfl; simp at hf'
      simp only [Function.update_of_ne hne] at hf'
      exact Or.inr ⟨page, k, hdr, pkt, hpage, hlt, hlt', hne, hf, hf', rfl, by simp [txEnter, hk, h1, h2]⟩

/-- The descriptors a call is going to use or to free. -/
def TxPc.descs : TxPc → List Nat
  | .alloced hdr pkt _ | .copied hdr pkt | .queued hdr pkt | .polling hdr pkt _ | .freeHdr hdr pkt => [hdr, pkt]
  | .freePkt pkt => [pkt]
  | .start | .done | .dropped | .panicked _ => []

/-- The call is in the locked section. -/
def TxPc.Locked : TxPc → Prop
  | .alloced _ _ _ | .copied _ _ | .queued _ _ => True
  | _ => False

structure TxOwn (s : TxSys) : Prop where
  nodup : ∀ c, (s.pc c).descs.Nodup
  held : ∀ c, ∀ d ∈ (s.pc c).descs, d < NUM ∧ s.q.free d = false
  alone : ∀ c c', ∀ d ∈ (s.pc c).descs, d ∈ (s.pc c').descs → c = c'
  locked : ∀ c, (s.pc c).Locked → s.lock = some c

namespace TxOwn

variable {data : Nat → Packet} {s t : TxSys} {c : Nat}

theorem boot (kmem : Kmem) (packetBuf : Nat) (mem : Nat → List UInt8) : TxOwn (.boot kmem packetBuf mem) where
  nodup _ := List.nodup_nil
  held _ _ h := nomatch h
  alone _ _ _ h := nomatch h
  locked _ h := nomatch h

theorem others_out (h : TxOwn s) (hl : (s.pc c).Locked) (c' : Nat) (hc : c' ≠ c) : ¬ (s.pc c').Locked := by
  intro hl'
  have := h.locked c' hl'
  rw [h.locked c hl] at this; exact hc (Option.some.inj this).symm

/-- A call moves on: the descriptors it has afterwards it had before or took from the free ones, and only what it
had before may have become free. -/
theorem move (h : TxOwn s) {pc : TxPc} (hpc : t.pc = Function.update s.pc c pc) (hnd : pc.descs.Nodup)
    (hheld : ∀ d ∈ pc.descs, t.q.free d = false ∧ (d ∈ (s.pc c).descs ∨ d < NUM ∧ s.q.free d = true))
    (hfree : ∀ d, s.q.free d = false → d ∉ (s.pc c).descs → t.q.free d = false)
    (hlock : pc.Locked → t.lock = some c) (hkeep : t.lock = s.lock ∨ s.lock = none ∨ s.lock = some c) :
    TxOwn t := by
  have hself : t.pc c = pc := by rw [hpc, Function.update_self]
  have hother : ∀ c', c' ≠ c → t.pc c' = s.pc c' := fun c' hc => by rw [hpc, Function.update_of_ne hc]
  -- what `c` has now belongs to no other call
  have hnew : ∀ d ∈ pc.descs, ∀ c', c' ≠ c → d ∉ (s.pc c').descs := by
    intro d hd c' hc hd'
    rcases (hheld d hd).2 with hold | ⟨-, hf⟩
    · exact hc (h.alone c' c d hd' hold)
    · have := (h.held c' d hd').2
      rw [hf] at this; cases this
  constructor
  · intro c'
    by_cases hc : c' = c
    · rw [hc, hself]; exact hnd
    · rw [hother c' hc]; exact h.nodup c'
  · intro c' d hd
    by_cases hc : c' = c
    · rw [hc, hself] at hd
      refine ⟨?_, (hheld d hd).1⟩
      rcases (hheld d hd).2 with hold | ⟨hlt, -⟩
      · exact (h.held c d hold).1
      · exact hlt
    · rw [hother c' hc] at hd
      obtain ⟨hlt, hf⟩ := h.held c' d hd
      exact ⟨hlt, hfree d hf fun hd' => hc (h.alone c' c d hd hd')⟩
  · intro c₁ c₂ d h₁ h₂
    by_cases hc₁ : c₁ = c <;> by_cases hc₂ : c₂ = c
    · rw [hc₁, hc₂]
    · rw [hc₁, hself] at h₁; rw [hother c₂ hc₂] at h₂
      exact absurd h₂ (hnew d h₁ c₂ hc₂)
    · rw [hother c₁ hc₁] at h₁; rw [hc₂, hself] at h₂
      exact absurd h₁ (hnew d h₂ c₁ hc₁)
    · rw [hother c₁ hc₁] at h₁; rw [hother c₂ hc₂] at h₂
      exact h.alone c₁ c₂ d h₁ h₂
  · intro c' hl
    by_cases hc : c' = c
    · rw [hc, hself] at hl; rw [hc]; exact hlock hl
    · rw [hother c' hc] at hl
      have hs := h.locked c' hl
      rcases hkeep with hk | hk | hk
      · rw [hk, hs]
      · rw [hk] at hs; cases hs
      · rw [hk] at hs; exact absurd (Option.some.inj hs).symm hc

theorem enter (h : TxOwn s) (hl : s.lock = none) : TxOwn (txEnter s c) := by
  rcases txEnter_cases s c with ⟨k, -, he⟩ | ⟨page, k, q, -, hq, he⟩ |
      ⟨page, k, hdr, pkt, -, hh, hp, hne, hfh, hfp, -, he⟩ <;> rw [he]
  · exact h.move rfl List.nodup_nil (fun _ hd => nomatch hd) (fun _ hf _ => hf) (fun hl => nomatch hl)
      (Or.inr (Or.inl hl))
  · exact h.move rfl List.nodup_nil (fun _ hd => nomatch hd) (fun d hf _ => hq.frame.2.2.2 d hf) (fun hl => nomatch hl)
      (Or.inl rfl)
  · refine h.move rfl (by simp [TxPc.descs, hne.symm]) (fun d hd => ?_) (fun d hf _ => ?_) (fun _ => rfl)
      (Or.inr (Or.inl hl))
    · simp only [TxPc.descs, List.mem_cons, List.not_mem_nil, or_false] at hd
      rcases hd with rfl | rfl
      · exact ⟨by simp [TxSys.setPc, Function.update_of_ne hne.symm], Or.inr ⟨hh, hfh⟩⟩
      · exact ⟨by simp [TxSys.setPc], Or.inr ⟨hp, hfp⟩⟩
    · simp only [TxSys.setPc, Function.update_apply]
      split <;> [rfl; split <;> [rfl; exact hf]]

/-- `free_desc` on a descriptor of the calling call does not stop the kernel. -/
theorem freeDesc_ok (h : TxOwn s) {d : Nat} (hd : d ∈ (s.pc c).descs) :
    freeDesc s.q d = .ok { s.q with
      desc := Function.update s.q.desc d ⟨0, 0, 0, 0⟩
      free := Function.update s.q.free d true } :=
  freeDesc_of_taken (h.held c d hd).1 (h.held c d hd).2

theorem giveBack (h : TxOwn s) {d : Nat} {pc : TxPc} (hd : d ∈ (s.pc c).descs)
    (hsub : pc.descs.Sublist ((s.pc c).descs.erase d)) (hl : ¬ pc.Locked) :
    TxOwn ({ s with q := { s.q with
      desc := Function.update s.q.desc d ⟨0, 0, 0, 0⟩
      free := Function.update s.q.free d true } }.setPc c pc) := by
  have hnd := h.nodup c
  refine h.move rfl ((hnd.erase d).sublist hsub) (fun e he => ?_) (fun e hf he => ?_) (fun h' => absurd h' hl)
    (Or.inl rfl)
  · have hmem := (hnd.mem_erase_iff).mp (hsub.subset he)
    refine ⟨?_, Or.inl hmem.2⟩
    simp only [TxSys.setPc, Function.update_of_ne hmem.1]
    exact (h.held c e hmem.2).2
  · have hne : e ≠ d := by rintro rfl; exact he hd
    simpa [TxSys.setPc, Function.update_of_ne hne] using hf

theorem call (h : TxOwn s) (hs : txCall data s c = some t) : TxOwn t := by
  unfold txCall at hs
  -- a call that keeps its descriptors and the free ones
  have keep : ∀ {u : TxSys} {pc : TxPc}, u.pc = Function.update s.pc c pc → pc.descs = (s.pc c).descs →
      u.q.free = s.q.free → (pc.Locked → u.lock = some c) → (u.lock = s.lock ∨ s.lock = some c) → TxOwn u := by
    intro u pc hpc hd hf hl hk
    refine h.move hpc (hd ▸ h.nodup c) (fun d hmem => ?_) (fun d hfd _ => by rw [hf, hfd]) hl
      (hk.imp id Or.inr)
    rw [hd] at hmem
    exact ⟨by rw [hf, (h.held c d hmem).2], Or.inl hmem⟩
  split at hs
  · rename_i hpc
    split at hs
    · cases hs
    · rename_i hl
      cases hs; exact h.enter (by simpa using hl)
  · rename_i hdr pkt page hpc
    have hl := h.locked c (by rw [hpc]; trivial)
    cases hs
    exact keep rfl (by rw [hpc]; rfl) rfl (fun _ => hl) (Or.inl rfl)
  · rename_i hdr pkt hpc
    have hl := h.locked c (by rw [hpc]; trivial)
    cases hs
    exact keep rfl (by rw [hpc]; rfl) rfl (fun _ => hl) (Or.inl rfl)
  · rename_i hdr pkt hpc
    have hl := h.locked c (by rw [hpc]; trivial)
    cases hs
    exact keep rfl (by rw [hpc]; rfl) rfl (fun hf => nomatch hf) (Or.inr hl)
  · rename_i hdr pkt prev hpc
    split at hs
    · cases hs
    · cases hs
      exact keep rfl (by rw [hpc]; rfl) rfl (fun hf => nomatch hf) (Or.inl rfl)
  · rename_i hdr pkt hpc
    have hd : hdr ∈ (s.pc c).descs := by simp [hpc, TxPc.descs]
    rw [h.freeDesc_ok hd] at hs
    cases hs
    exact h.giveBack hd (by simp [hpc, TxPc.descs]) (fun hf => nomatch hf)
  · rename_i pkt hpc
    have hd : pkt ∈ (s.pc c).descs := by simp [hpc, TxPc.descs]
    rw [h.freeDesc_ok hd] at hs
    cases hs
    exact h.giveBack hd (by simp [TxPc.descs]) (fun hf => nomatch hf)
  all_goals cases hs

end TxOwn

end Xv6Net.Virtio
