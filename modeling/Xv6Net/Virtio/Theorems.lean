import Xv6Net.Virtio.Lemmas.RxRun
import Xv6Net.Virtio.Lemmas.Tx
import Xv6Net.Virtio.Lemmas.TxFree

/-!
# Properties of the virtio network driver
-/

namespace Xv6Net.Virtio

open Kernel Lib

/-! ## Receiving -/

/-- Ownership of the receive buffers, as long as fewer than 2^16 packets were received: every chain is in exactly
one of the four places, what is published are chain heads, no step overwrites an entry that is still pending, and
the device may not write the buffer that `handle_packet` is parsing. -/
theorem rx_ownership {k k' : Kmem} {q : Virtq} {mem : Nat → List UInt8} {as : List RxAct} {s : RxSys}
    (hk : k.freelist.Nodup) (hq : rxInit k = .ok (q, k'))
    (hs : run rxStep (RxSys.boot q mem) as = some s) (hp : s.pushLog.length < 65536) :
    s.Owned ∧ (∀ h ∈ s.published, h ∈ rxHeads) ∧
      (∀ a t, rxStep s a = some t → s.PendingKept t) ∧ s.ParsedBufferSafe := by
  obtain ⟨hboot, hbufs⟩ := RxInv.boot hk hq mem
  have h := hboot.of_run hs hp
  refine ⟨h.owned, fun g hg => h.owned.subset ?_, fun a t hst => h.pendingKept hst,
    h.parsedBufferSafe rfl hbufs⟩
  simp only [List.mem_append]; tauto

/-- The second packet is pushed while the first one is parsed. -/
theorem rx_ownership_two :
    ∃ q k' s, rxInit Kmem.sample = .ok (q, k') ∧
      run rxStep (RxSys.boot q fun _ => [])
        [.take, .take, .push 0 70, .driver, .driver, .write 2 [1], .push 2 70] = some s ∧
      s.pushLog.length < 65536 ∧ s.pc = .handle 0 ∧ s.Owned ∧ (∀ h ∈ s.published, h ∈ rxHeads) ∧
      (∀ a t, rxStep s a = some t → s.PendingKept t) ∧ s.ParsedBufferSafe := by
  refine ⟨_, _, _, rfl, rfl, by decide, rfl, ?_⟩
  exact @rx_ownership Kmem.sample _ _ (fun _ => [])
    [.take, .take, .push 0 70, .driver, .driver, .write 2 [1], .push 2 70] _ (by decide) rfl rfl (by decide)

/-! ## Sending -/

/-- Transmit integrity in every run in which each call that gets its descriptors entered the locked section after
the device had returned all chains published before. -/
theorem transmit_integrity_of_calm {data : Nat → Packet} {k₀ k : Kmem} {packetBuf : Nat} {mem : Nat → List UInt8}
    {as : List TxAct} {s : TxSys} (hk : k₀.freelist.Nodup) (hbuf : kalloc k₀ = (some packetBuf, k))
    (hs : run (txStep data) (.boot k packetBuf mem) as = some s)
    (hcalm : RunMeets (txStep data) TxCalm (.boot k packetBuf mem) as) : s.Integrity data := by
  have hnot : packetBuf ∉ k.freelist := by
    rw [(kalloc_eq_some hbuf).1] at hk; exact (List.nodup_cons.mp hk).1
  have hinv : TxInv data s := run_keeps (fun _ _ _ h hc ht => h.step hc ht) (TxInv.boot hnot mem) hcalm hs
  exact hinv.integrity

def twoPackets (c : Nat) : Packet := ⟨[UInt8.ofNat (c + 1)], by simp [PGSIZE]⟩

/-- Two calls, the second one entering when the device has returned the chain of the first. -/
theorem transmit_integrity_of_calm_two :
    ∃ p k s, kalloc Kmem.sample = (some p, k) ∧
      run (txStep twoPackets) (.boot k p fun _ => [])
        [.call 0, .call 0, .call 0, .call 0, .take, .read 0, .push 0, .call 1, .call 0, .call 0, .call 1, .call 0,
          .call 1, .take, .read 1] = some s ∧
      s.log.sent = [(0, [1]), (1, [2])] ∧ s.Integrity twoPackets := by
  refine ⟨_, _, _, rfl, rfl, rfl, ?_⟩
  exact @transmit_integrity_of_calm twoPackets Kmem.sample _ _ (fun _ => [])
    [.call 0, .call 0, .call 0, .call 0, .take, .read 0, .push 0, .call 1, .call 0, .call 0, .call 1, .call 0,
      .call 1, .take, .read 1] _ (by decide) rfl rfl (by decide)

/-- Two ways in which overlapping calls fail. The second call copies its data over that of the first before the
device has read it; or the second call takes the return of the first one's chain for its own and frees. -/
theorem transmit_overlap_fails :
    ∃ p k, kalloc Kmem.sample = (some p, k) ∧
      (∃ s, run (txStep twoPackets) (.boot k p fun _ => [])
          [.call 0, .call 0, .call 0, .call 0, .call 1, .call 1, .take, .read 0] = some s ∧
        s.log.Published 0 0 ∧ s.log.sent = [(0, (twoPackets 1).bytes)] ∧ ¬ s.Integrity twoPackets) ∧
      (∃ s, run (txStep twoPackets) (.boot k p fun _ => [])
          [.call 0, .call 0, .call 0, .call 0, .call 1, .call 1, .call 1, .call 1, .take, .read 0, .push 0, .call 1,
            .call 1] = some s ∧
        (s.pc 1).Freeing ∧ ¬ s.log.Consumed 1 ∧ ¬ s.Integrity twoPackets) := by
  refine ⟨_, _, rfl, ⟨_, rfl, ⟨0, rfl⟩, rfl, fun h => ?_⟩, ⟨_, rfl, trivial, ?_⟩⟩
  · obtain ⟨c, ⟨head, hc⟩, hb⟩ := h.frames (0, [2]) (by decide)
    cases hc
    exact absurd hb (by decide)
  · have hnot : ∀ seq ∈ [0], ∀ head, ([(0, 0), (1, 2)] : List (Nat × Nat))[seq]? ≠ some (1, head) := by
      intro seq hseq head hc
      rw [List.mem_singleton.mp hseq] at hc; cases hc
    constructor
    · rintro ⟨seq, hseq, head, hc⟩
      exact hnot seq hseq head hc
    · intro h
      obtain ⟨seq, hseq, head, hc⟩ := h.freed_after 1 trivial
      exact hnot seq hseq head hc

/-! ## Descriptors -/

/-- Descriptor conservation, in every run: with no call in progress all descriptors are free exactly if no call
entered the locked section with a single one free, and a call that is dropped leaves the table as it found it
exactly if it did not. `free_desc` stops the kernel in no run. -/
theorem tx_descriptors_iff {data : Nat → Packet} {k : Kmem} {packetBuf : Nat} {mem : Nat → List UInt8}
    {as : List TxAct} {s : TxSys} (hs : run (txStep data) (.boot k packetBuf mem) as = some s) :
    (∀ c e, s.pc c = .panicked e → e = .panic "failed to allocate header\n") ∧
      ((∀ c, ¬ (s.pc c).InProgress) →
        ((∀ i, i < NUM → s.q.free i = true) ↔ RunMeets (txStep data) TxPaired (.boot k packetBuf mem) as)) ∧
      ∀ c t, txStep data s (.call c) = some t → t.pc c = .dropped →
        (t.q.free = s.q.free ↔ TxPaired s (.call c)) := by
  have hboot := TxOwn.boot k packetBuf mem
  obtain ⟨hown, hfrees⟩ : TxOwn s ∧ s.FreesWell :=
    run_keeps' (I := fun s => TxOwn s ∧ s.FreesWell) (fun _ _ _ h ht => ⟨h.1.step ht, h.2.step h.1 ht⟩)
      ⟨hboot, fun _ _ h => nomatch h⟩ hs
  refine ⟨hfrees, fun hidle => ⟨fun hall => ?_, fun hpaired => ?_⟩, fun c t ht hd => drop_free_iff hown ht hd⟩
  · by_contra hnot
    have hleak : s.Leaky := run_marks (fun _ _ _ h ht => TxOwn.step h ht)
      (fun _ _ _ h hp ht => leaky_of_not_paired h hp ht) (fun _ _ _ h hl ht => hl.step h ht) hboot hnot hs
    rcases hleak with ⟨c, e, hc⟩ | ⟨d, hd, hf, -⟩
    · exact hidle c (by rw [hc]; trivial)
    · rw [hall d hd] at hf; cases hf
  · have howned : TxOwn s ∧ s.AllOwned :=
      run_keeps (I := fun s => TxOwn s ∧ s.AllOwned) (fun _ _ _ h hp ht => ⟨h.1.step ht, h.2.step h.1 hp ht⟩)
        ⟨hboot, fun d hd hf => absurd hd (of_decide_eq_false hf)⟩ hpaired hs
    intro d hd
    by_contra hf
    obtain ⟨c, hc⟩ := howned.2 d hd (by simpa using hf)
    have := hidle c
    cases hpc : s.pc c <;> simp_all [TxPc.InProgress, TxPc.descs]

/-- Steps of the calls `c.1`, each with as many as `c.2`. -/
def txCalls (cs : List (Nat × Nat)) : List TxAct := cs.flatMap fun c => List.replicate c.2 (.call c.1)

def twoOverlap : Sample (txStep twoPackets) (.boot .sample 0 fun _ => [])
    (txCalls [(0, 4), (1, 4)] ++ [.take, .read 0, .push 0] ++ txCalls [(0, 2), (1, 3), (0, 1)]) TxPaired
    (fun s => ∀ c, c < 2 → s.pc c = .done) := .eval (by decide +kernel)

/-- Two calls that overlap: both return and every descriptor is free again. -/
theorem tx_descriptors_iff_two :
    ∃ s, run (txStep twoPackets) (.boot .sample 0 fun _ => [])
        (txCalls [(0, 4), (1, 4)] ++ [.take, .read 0, .push 0] ++ txCalls [(0, 2), (1, 3), (0, 1)]) = some s ∧
      (∀ c e, s.pc c = .panicked e → e = .panic "failed to allocate header\n") ∧
      ∀ i, i < NUM → s.q.free i = true := by
  obtain ⟨s, hpaired, hs, hpc⟩ := twoOverlap
  obtain ⟨hfrees, hall, -⟩ := tx_descriptors_iff hs
  refine ⟨s, hs, hfrees, (hall fun c => ?_).mpr hpaired⟩
  by_cases hc : c < 2
  · rw [hpc c hc]; exact id
  · rw [pc_of_not_called hs (by simp [txCalls]; omega)]; exact id

def fiveOverlap : Sample (txStep twoPackets) (.boot .sample 0 fun _ => [])
    (txCalls [(0, 4), (1, 4), (2, 4), (3, 4)] ++ [.take, .read 0, .push 0] ++
      txCalls [(0, 2), (4, 1), (0, 1), (1, 3), (2, 3), (3, 3)]) (fun _ _ => True)
    (fun s => (∀ c, c < 5 → s.pc c = .done ∨ s.pc c = .dropped) ∧ s.pc 4 = .dropped ∧ s.q.free 0 = false) :=
  .eval (by decide +kernel)

/-- Four calls have all descriptors. The first one has given its header descriptor back when a fifth call takes it,
finds no second one and is dropped: when all calls have returned, the descriptor is still taken. -/
theorem tx_descriptor_leaks :
    ∃ s, run (txStep twoPackets) (.boot .sample 0 fun _ => [])
        (txCalls [(0, 4), (1, 4), (2, 4), (3, 4)] ++ [.take, .read 0, .push 0] ++
          txCalls [(0, 2), (4, 1), (0, 1), (1, 3), (2, 3), (3, 3)]) = some s ∧
      (∀ c, ¬ (s.pc c).InProgress) ∧ s.pc 4 = .dropped ∧ s.q.free 0 = false := by
  obtain ⟨s, -, hs, hpc, hdrop, hfree⟩ := fiveOverlap
  refine ⟨s, hs, fun c => ?_, hdrop, hfree⟩
  by_cases hc : c < 5
  · rcases hpc c hc with h | h <;> rw [h] <;> exact id
  · rw [pc_of_not_called hs (by simp [txCalls]; omega)]; exact id

end Xv6Net.Virtio
