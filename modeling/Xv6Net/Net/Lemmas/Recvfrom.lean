import Xv6Net.Net.Lemmas.Queue
import Xv6Net.Net.Recvfrom
import Xv6Net.Vm.Lemmas.Copy

/-!
# What `udp_recvfrom` copies
-/

namespace Xv6Net.Net

open Kernel Lib Vm

variable {h : Host} {qs : Nat → List Nat} {sock pkt buf len : Nat} {rest : List Nat} {pt : PageTable} {mem : Memory}

@[simp] theorem Datagram.length_bytes (d : Datagram) : d.bytes.length = d.payloadLen := by simp [Datagram.bytes]

theorem kfree_ram {k : Kmem} {p : Nat} (hp : k.Ram p) : ∃ k', kfree k p = .ok k' := by
  have hcheck : ¬(p % PGSIZE ≠ 0 ∨ p < k.kend ∨ PHYSTOP ≤ p) := by
    obtain ⟨ha, hle, hlt⟩ := hp
    omega
  simp only [kfree, hcheck, ↓reduceDIte]
  split
  · exact ⟨_, rfl⟩
  · exact ⟨_, rfl⟩

/-- A socket with a packet gives it up. -/
theorem dequeue_cons (hq : Queues h qs) (hne : qs sock = pkt :: rest) :
    ∃ h', dequeueUdpPacket h sock = (some pkt, h') ∧ h'.udpFrames = h.udpFrames ∧ h'.kmem = h.kmem ∧
      Queues h' (Function.update qs sock rest) := by
  have hqueue := hq.queue sock
  rw [hne] at hqueue
  have hd : dequeueUdpPacket h sock = (some pkt, (dequeueUdpPacket h sock).2) := by
    simp only [dequeueUdpPacket, hqueue.linked.1]
  obtain ⟨-, hf, hsame, rest', hrest', hq'⟩ := hq.dequeue hd
  obtain rfl : rest' = rest := by
    rw [hne] at hrest'
    exact (List.cons.inj hrest').2.symm
  exact ⟨_, hd, hf, hsame.kmem, hq'⟩

/-- How the call ends: the packet is off the queue and its page is freed. -/
theorem udpRecvfrom_cons {α : Type} (hq : Queues h qs) (hne : qs sock = pkt :: rest) (hram : h.kmem.Ram pkt) (len : Nat)
    (copyout : List UInt8 → Bool × α) :
    ∃ h', Queues h' (Function.update qs sock rest) ∧ h'.udpFrames = h.udpFrames ∧
      udpRecvfrom h sock len copyout = some (.ok
        ⟨if (copyout (h.udpFrames pkt).bytes).1 then min (h.udpFrames pkt).payloadLen len else -1, pkt,
          (copyout (h.udpFrames pkt).bytes).2, h'⟩) := by
  obtain ⟨h', hd, hf, hk, hq'⟩ := dequeue_cons hq hne
  obtain ⟨k, hfree⟩ := kfree_ram hram
  have hsame : SameRx h' { h' with kmem := k } := .of_eq rfl rfl rfl
  refine ⟨{ h' with kmem := k }, hsame.queues hq', hf, ?_⟩
  have hmin : (if ((h.udpFrames pkt).payloadLen : Int) < (len : Int) then ((h.udpFrames pkt).payloadLen : Int)
      else (len : Int)) = min ((h.udpFrames pkt).payloadLen : Int) len := by
    split <;> omega
  simp only [udpRecvfrom, hd, hf, hk, hfree, hmin]
  rfl

theorem respectsBuffer_of_le (hq : Queues h qs) (hne : qs sock = pkt :: rest) (hram : h.kmem.Ram pkt) (hown : pt.Own)
    (hmaps : pt.Maps buf len) (hle : (h.udpFrames pkt).payloadLen ≤ len) (mem : Memory) :
    RespectsBuffer h qs sock pt mem buf len := by
  have hmaps' : pt.Maps buf (h.udpFrames pkt).bytes.length := fun i hi => hmaps i (by
    rw [Datagram.length_bytes] at hi; omega)
  obtain ⟨mem', hc⟩ := copyoutTo_of_maps mem hmaps'
  obtain ⟨h', hq', hf, ho⟩ := udpRecvfrom_cons hq hne hram len (copyoutTo pt mem buf)
  rw [hc] at ho
  refine ⟨pkt, rest, h', mem', hne, ho, hq', hf, ?_⟩
  rw [List.take_of_length_le (by rw [Datagram.length_bytes]; omega)]
  exact copyoutTo_copied hown.userOwn hc

/-- A payload that is longer than the buffer is copied past its end, or the call fails. -/
theorem exists_not_respectsBuffer (hq : Queues h qs) (hne : qs sock = pkt :: rest) (hram : h.kmem.Ram pkt)
    (hown : pt.Own) (hlt : len < (h.udpFrames pkt).payloadLen) (buf : Nat) :
    ∃ mem, ¬ RespectsBuffer h qs sock pt mem buf len := by
  have hlen : len < (h.udpFrames pkt).bytes.length := by rw [Datagram.length_bytes]; exact hlt
  -- memory that has another byte everywhere than the first one behind the buffer is to get
  let mem : Memory := fun _ => (h.udpFrames pkt).bytes[len] + 1
  refine ⟨mem, ?_⟩
  rintro ⟨pkt', rest', h₁, mem₁, hne', ho, -, -, hcopied⟩
  obtain ⟨rfl, rfl⟩ := List.cons.inj (hne.symm.trans hne')
  rw [Nat.min_eq_right (by omega)] at hcopied
  obtain ⟨h', -, -, ho'⟩ := udpRecvfrom_cons hq hne hram len (copyoutTo pt mem buf)
  rw [ho] at ho'
  simp only [Option.some.injEq, Except.ok.injEq, Received.mk.injEq] at ho'
  obtain ⟨hret, -, rfl, -⟩ := ho'
  rcases hc : copyoutTo pt mem buf (h.udpFrames pkt).bytes with ⟨_ | _, mem'⟩
  · rw [hc, if_neg Bool.false_ne_true] at hret
    omega
  · rw [hc] at hcopied
    obtain ⟨a, ha, hbyte⟩ := (copyoutTo_copied hown.userOwn hc).bytes len hlen
    have hkept : mem' a = mem a := hcopied.rest a fun i hi heq => by
      rw [List.length_take] at hi
      have := hown.userOwn.userAddr_inj heq ha
      omega
    have hne : (h.udpFrames pkt).bytes[len] + 1 ≠ (h.udpFrames pkt).bytes[len] := by simp
    exact hne (hkept.symm.trans hbyte)

end Xv6Net.Net
