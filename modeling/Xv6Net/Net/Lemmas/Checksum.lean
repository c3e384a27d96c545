import Xv6Net.Net.Checksum
import Xv6Net.Net.Lemmas.Packet

/-!
# Checksums in either byte order

The code adds words with the low byte first. Exchanging the bytes of a word multiplies it by 256 modulo 65535, so the sum
that it stores is the one in network order.
-/

namespace Xv6Net.Net

open Lib OnesComplement

/-! ## Words -/

theorem sumWords_append {a : List UInt8} (b : List UInt8) (ha : a.length % 2 = 0) :
    sumWords (a ++ b) = sumWords a + sumWords b := by
  fun_induction sumWords a with
  | case1 => simp
  | case2 => simp at ha
  | case3 x y rest ih =>
      simp only [List.length_cons] at ha
      have hrest : rest.length % 2 = 0 := by omega
      simp only [List.cons_append, sumWords, ih hrest]
      omega

theorem sumWords_bytes16 (x : UInt16) : sumWords (bytes16 x) = x.toNat := by
  have hx := x.toNat_lt
  simp only [bytes16, sumWords, UInt8.toNat_ofNat']
  omega

theorem sumWords_le (b : List UInt8) : sumWords b ≤ 65535 * b.length := by
  fun_induction sumWords b with
  | case1 => simp
  | case2 a => have := a.toNat_lt; simp; omega
  | case3 x y rest ih =>
      have hx := x.toNat_lt
      have hy := y.toNat_lt
      simp only [List.length_cons]
      omega

theorem netWords_lt (b : List UInt8) : ∀ w ∈ netWords b, w < 65536 := by
  fun_induction netWords b with
  | case1 => simp
  | case2 a => have := a.toNat_lt; simp; omega
  | case3 x y rest ih =>
      have hx := x.toNat_lt
      have hy := y.toNat_lt
      intro w hw
      rcases List.mem_cons.mp hw with rfl | hw
      · omega
      · exact ih w hw

theorem sum_netWords_modEq (b : List UInt8) : (netWords b).sum ≡ 256 * sumWords b [MOD 65535] := by
  fun_induction netWords b with
  | case1 => rfl
  | case2 a => simp [sumWords, Nat.ModEq]
  | case3 x y rest ih =>
      simp only [List.sum_cons, sumWords, Nat.mul_add]
      refine Nat.ModEq.add ?_ ih
      simp only [Nat.ModEq]
      omega

theorem sum_netWords_eq_zero (b : List UInt8) : (netWords b).sum = 0 ↔ sumWords b = 0 := by
  fun_induction netWords b with
  | case1 => rfl
  | case2 a => simp [sumWords]
  | case3 x y rest ih => simp only [List.sum_cons, sumWords]; omega

theorem onesSum_represents (b : List UInt8) : Represents 65536 (onesSum b) (netWords b).sum :=
  represents_sum (by decide) (netWords_lt b)

/-! ## The Internet checksum -/

theorem toNat_foldSum {n : Nat} (h : n < 65536 * 65536) : ∃ x, Represents 65536 x n ∧ (foldSum n).toNat = 65535 - x := by
  refine ⟨_, represents_carry_carry h, ?_⟩
  simp only [foldSum, UInt16.toNat_not, UInt16.toNat_ofNat', UInt16.size, carry]
  omega

theorem toNat_internetChecksum (b : List UInt8) : (internetChecksum b).toNat = 65535 - onesSum b := by
  have hlt := (onesSum_represents b).lt
  simp only [internetChecksum, UInt16.toNat_not, UInt16.toNat_ofNat', UInt16.size]
  omega

theorem bytes_of_toNat {x : UInt16} {lo hi : Nat} (hlo : lo < 256) (hx : x.toNat = lo + 256 * hi) :
    bytes16 x = [.ofNat lo, .ofNat hi] ∧ netBytes16 x = [.ofNat hi, .ofNat lo] := by
  have hdiv : (lo + 256 * hi) / 256 = hi := by omega
  have hmod : UInt8.ofNat (lo + 256 * hi) = UInt8.ofNat lo := by
    simp
  simp only [bytes16, netBytes16, hx, hdiv, hmod, and_self]

theorem netBytes16_eq_zero {x : UInt16} : netBytes16 x = [0, 0] ↔ x = 0 := by
  have hx := x.toNat_lt
  simp only [netBytes16, List.cons.injEq, and_true, ← UInt8.toNat_inj, UInt8.toNat_ofNat', UInt8.toNat_zero,
    ← UInt16.toNat_inj, UInt16.toNat_zero]
  omega

/-- Stored with the low byte first, the sum of the code is the Internet checksum. -/
theorem bytes16_foldSum {b : List UInt8} (h : sumWords b < 65536 * 65536) :
    bytes16 (foldSum (sumWords b)) = netBytes16 (internetChecksum b) := by
  obtain ⟨x, hx, hfold⟩ := toNat_foldSum h
  have hswap : Represents 65536 (swap 256 x) (netWords b).sum := by
    refine (hx.swap (c := 256) (by decide)).congr (sum_netWords_modEq b).symm ?_
    have := sum_netWords_eq_zero b
    omega
  have hsum : onesSum b = swap 256 x := (onesSum_represents b).unique hswap
  have hq : x / 256 < 256 := Nat.div_lt_of_lt_mul hx.lt
  have hr : x % 256 < 256 := Nat.mod_lt x (by decide)
  -- both complements by their bytes
  have hcode : (foldSum (sumWords b)).toNat = (255 - x % 256) + 256 * (255 - x / 256) := by omega
  have hnet : (internetChecksum b).toNat = (255 - x / 256) + 256 * (255 - x % 256) := by
    rw [toNat_internetChecksum, hsum, swap]
    omega
  rw [(bytes_of_toNat (by omega) hcode).1, (bytes_of_toNat (by omega) hnet).2]

theorem dvd_sum_netWords_iff (b : List UInt8) : 65535 ∣ (netWords b).sum ↔ 65535 ∣ sumWords b := by
  have hcop : Nat.Coprime 65535 256 := by decide
  rw [(sum_netWords_modEq b).dvd_iff dvd_rfl, hcop.dvd_mul_left]

theorem onesSum_eq_ones_iff (b : List UInt8) : onesSum b = 0xFFFF ↔ sumWords b ≠ 0 ∧ 65535 ∣ sumWords b := by
  rw [← dvd_sum_netWords_iff, ne_eq, ← sum_netWords_eq_zero]
  exact (onesSum_represents b).eq_ones_iff (by decide)

/-- With the checksum added, whatever buffer it was computed for, the words sum up to ones. -/
theorem onesSum_of_foldSum {b : List UInt8} {n : Nat} (h : n < 65536 * 65536)
    (hb : sumWords b = n + (foldSum n).toNat) : onesSum b = 0xFFFF := by
  obtain ⟨x, hx, hfold⟩ := toNat_foldSum h
  rw [onesSum_eq_ones_iff, hb, hfold]
  exact (Represents.ones_iff (B := 65536) (by decide)).mp (hx.add_compl (by decide))

/-! ## Headers -/

theorem sumWords_insert {a : List UInt8} (ha : a.length % 2 = 0) (csum : UInt16) (b : List UInt8) :
    sumWords (a ++ (bytes16 csum ++ b)) = sumWords (a ++ (bytes16 0 ++ b)) + csum.toNat := by
  have heven (x : UInt16) : (bytes16 x).length % 2 = 0 := by simp
  simp only [sumWords_append _ ha, sumWords_append _ (heven _), sumWords_bytes16, UInt16.toNat_zero]
  omega

theorem Ip4Hdr.sumWords_encode (hdr : Ip4Hdr) (csum : UInt16) :
    sumWords { hdr with csum := csum }.encode = sumWords { hdr with csum := 0 }.encode + csum.toNat := by
  have h := sumWords_insert (a := [hdr.verIhl, hdr.tos] ++ bytes16 hdr.totalLen ++ bytes16 hdr.identification ++
    bytes16 hdr.fragmentInfo ++ [hdr.ttl, hdr.protocol]) (by simp) csum (bytes32 hdr.srcIp ++ bytes32 hdr.dstIp)
  simpa only [Ip4Hdr.encode, List.append_assoc] using h

theorem onesSum_ip4Header (src dst : UInt32) (proto : UInt8) (len : UInt16) :
    onesSum (ip4Header src dst proto len).encode = 0xFFFF := by
  refine onesSum_of_foldSum ?_ (Ip4Hdr.sumWords_encode _ _)
  exact (sumWords_le _).trans_lt (by rw [Ip4Hdr.length_encode]; decide)

theorem slice_buildIp4 (page : Nat → UInt8) (ip : Nat) (src dst : UInt32) (proto : UInt8) (len : UInt16) :
    slice (buildIp4 page ip src dst proto len) ip IP4_HDR_SIZE = (ip4Header src dst proto len).encode :=
  slice_write_self' (Ip4Hdr.length_encode _)

/-! ## UDP -/

theorem bytes16_htons (x : UInt16) : bytes16 (htons x) = netBytes16 x := by
  have hx := x.toNat_lt
  have hswap : (htons x).toNat = x.toNat / 256 + 256 * (x.toNat % 256) := by
    rw [show htons x = ntohs x from rfl, toNat_ntohs]
    omega
  rw [(bytes_of_toNat (by omega) hswap).1, (bytes_of_toNat (Nat.mod_lt x.toNat (by decide)) (Nat.mod_add_div ..).symm).2]

section

variable (page : Nat → UInt8) (udp : Nat) (srcPort dstPort : UInt16) (payload : List UInt8) (srcIp dstIp : UInt32)

theorem builtDatagram_eq : builtDatagram page udp srcPort dstPort payload srcIp dstIp =
    (udpHeader srcPort dstPort payload srcIp dstIp).encode ++ payload := by
  rw [builtDatagram, slice_add, buildUdp]
  congr 1
  · exact slice_write_self' (UdpHdr.length_encode _)
  · rw [slice_write_of_disjoint (by simp), slice_write_self]

theorem length_builtDatagram :
    (builtDatagram page udp srcPort dstPort payload srcIp dstIp).length = UDP_HDR_SIZE + payload.length :=
  length_slice ..

theorem clearChecksum_builtDatagram : clearChecksum (builtDatagram page udp srcPort dstPort payload srcIp dstIp) =
    UdpHdr.encode ⟨htons srcPort, dstPort, htons (.ofNat (UDP_HDR_SIZE + payload.length)), 0⟩ ++ payload := by
  rw [builtDatagram_eq, Nat.add_comm UDP_HDR_SIZE]
  simp [clearChecksum, UdpHdr.encode, bytes16, udpHeader, UDP_HDR_SIZE]

/-- The three sums of `udp_checksum` are over parts of even length, so they are one sum. -/
theorem udpHeader_csum : (udpHeader srcPort dstPort payload srcIp dstIp).csum =
    foldSum (sumWords (checksummed srcPort dstPort payload srcIp dstIp)) := by
  rw [checksummed, sumWords_append _ (by simp [pseudoHeader, netBytes16]), sumWords_append _ (by simp [UDP_HDR_SIZE]),
    pseudoHeader, ← bytes16_htons, Nat.add_comm UDP_HDR_SIZE, ← Nat.add_assoc]
  rfl

theorem checksummed_lt (hlen : payload.length ≤ 1500) :
    sumWords (checksummed srcPort dstPort payload srcIp dstIp) < 65536 * 65536 := by
  have hle := sumWords_le (checksummed srcPort dstPort payload srcIp dstIp)
  have hlength : (checksummed srcPort dstPort payload srcIp dstIp).length = 20 + payload.length := by
    simp [checksummed, pseudoHeader, netBytes16, UDP_HDR_SIZE]
    omega
  omega

/-- The sum contains the number of the protocol. -/
theorem sumWords_checksummed_ne_zero : sumWords (checksummed srcPort dstPort payload srcIp dstIp) ≠ 0 := by
  have hproto (b : List UInt8) : sumWords ([0, .ofNat IPPROTO_UDP] ++ b) ≠ 0 := by simp [sumWords, IPPROTO_UDP]
  simp only [checksummed, pseudoHeader, List.append_assoc]
  rw [sumWords_append _ (by simp), sumWords_append _ (by simp)]
  simp only [ne_eq, Nat.add_eq_zero_iff, hproto _, and_false, not_false_eq_true]

theorem internetChecksum_checksummed : internetChecksum (checksummed srcPort dstPort payload srcIp dstIp) = 0 ↔
    65535 ∣ (netWords (checksummed srcPort dstPort payload srcIp dstIp)).sum := by
  have hlt := (onesSum_represents (checksummed srcPort dstPort payload srcIp dstIp)).lt
  rw [← UInt16.toNat_inj, toNat_internetChecksum, UInt16.toNat_zero, dvd_sum_netWords_iff]
  have hones := onesSum_eq_ones_iff (checksummed srcPort dstPort payload srcIp dstIp)
  simp only [sumWords_checksummed_ne_zero srcPort dstPort payload srcIp dstIp, ne_eq, not_false_eq_true,
    true_and] at hones
  rw [← hones]
  omega

/-- The sum of the receiver is right also where the checksum is 0. -/
theorem onesSum_builtDatagram (hlen : payload.length ≤ 1500) :
    onesSum (pseudoHeader srcIp dstIp (UDP_HDR_SIZE + payload.length) ++
      builtDatagram page udp srcPort dstPort payload srcIp dstIp) = 0xFFFF := by
  refine onesSum_of_foldSum (checksummed_lt srcPort dstPort payload srcIp dstIp hlen) ?_
  rw [← udpHeader_csum, builtDatagram_eq]
  have h := sumWords_insert (a := pseudoHeader srcIp dstIp (UDP_HDR_SIZE + payload.length) ++ bytes16 (htons srcPort) ++
    bytes16 dstPort ++ bytes16 (htons (.ofNat (UDP_HDR_SIZE + payload.length))))
    (by simp [pseudoHeader, netBytes16]) (udpHeader srcPort dstPort payload srcIp dstIp).csum payload
  simp only [List.append_assoc, Nat.add_comm UDP_HDR_SIZE] at h
  simp only [checksummed, UdpHdr.encode, List.append_assoc, Nat.add_comm UDP_HDR_SIZE]
  exact h

theorem checksumCorrect_iff (hlen : payload.length ≤ 1500) :
    ChecksumCorrect srcIp dstIp (builtDatagram page udp srcPort dstPort payload srcIp dstIp) ↔
      ¬ 65535 ∣ (netWords (checksummed srcPort dstPort payload srcIp dstIp)).sum := by
  have hfield : ((builtDatagram page udp srcPort dstPort payload srcIp dstIp).drop 6).take 2 =
      netBytes16 (internetChecksum (checksummed srcPort dstPort payload srcIp dstIp)) := by
    rw [← bytes16_foldSum (checksummed_lt srcPort dstPort payload srcIp dstIp hlen), ← udpHeader_csum, builtDatagram_eq]
    rfl
  have hrfc : rfc768Checksum srcIp dstIp (builtDatagram page udp srcPort dstPort payload srcIp dstIp) =
      if internetChecksum (checksummed srcPort dstPort payload srcIp dstIp) = 0 then 0xFFFF
      else internetChecksum (checksummed srcPort dstPort payload srcIp dstIp) := by
    rw [rfc768Checksum, length_builtDatagram, clearChecksum_builtDatagram]
    rfl
  rw [← internetChecksum_checksummed]
  constructor
  · intro hc h0
    exact hc.ne_zero (by rw [hfield, h0]; rfl)
  · intro hne
    refine ⟨by rw [hfield, hrfc, if_neg hne], ?_, ?_⟩
    · intro h0
      rw [hfield, netBytes16_eq_zero] at h0
      exact hne h0
    · rw [length_builtDatagram]
      exact onesSum_builtDatagram page udp srcPort dstPort payload srcIp dstIp hlen

end

end Xv6Net.Net
