import Xv6Net.Fs.Lemmas.Write

/-! The bytes of files, and what `readi` returns of them. -/

namespace Xv6Net.Fs

open Lib

variable {sb : Superblock} {disk disk' : Disk} {inum : UInt32} {ip ip' : Dinode}

theorem Slot.ofIndex_inj {m n : Nat} {s : Slot} (hm : Slot.ofIndex m = some s) (hn : Slot.ofIndex n = some s) : m = n := by
  unfold Slot.ofIndex at hm hn
  grind

/-- Blocks of a file at different places are different. -/
theorem Superblock.Pending.blockAt_inj (h : sb.Pending disk inum ip) (ht : ip.type ≠ 0) {m n : Nat}
    (hm : ip.blockAt disk m ≠ 0) (heq : ip.blockAt disk m = ip.blockAt disk n) : m = n := by
  obtain ⟨s, hs, hsm⟩ := Dinode.exists_slot hm
  obtain ⟨t, ht', htn⟩ := Dinode.exists_slot (heq ▸ hm)
  have hself (s : Slot) : sb.refsWith disk inum ip (inum, s) = ip.slot disk s := refsWith_self h.lt ht s
  have := h.accounts.owns.inj (inum, s) (inum, t) (by rwa [hself, ← hsm]) (by rw [hself, hself, ← hsm, ← htn, heq])
  obtain rfl := (Prod.ext_iff.mp this).2
  exact Slot.ofIndex_inj hs ht'

/-- `bmap` leaves the bytes of the file. -/
theorem Maps.byte (h : Maps sb inum disk ip disk' ip') (hlt : inum < sb.ninodes) (ht : ip.type ≠ 0) {k : Nat}
    (hk : ip.blockAt disk (k / BSIZE) ≠ 0) : ip'.byte disk' k = ip.byte disk k := by
  obtain ⟨s, hs, heq⟩ := Dinode.exists_slot hk
  have hself : sb.refsWith disk inum ip (inum, s) = ip.blockAt disk (k / BSIZE) := by
    rw [heq]; exact Superblock.refsWith_self hlt ht s
  have hne : (inum, s) ≠ (inum, Slot.indirect) := fun heq => Slot.ofIndex_ne_indirect hs (Prod.ext_iff.mp heq).2
  have hdata := h.data (inum, s) (by rwa [hself]) hne
  rw [hself] at hdata
  rw [Dinode.byte, h.blockAt ht hk, hdata, Dinode.byte]

theorem byte_writeData (hsb : sb.Sane) (h : sb.Pending disk inum ip) (ht : ip.type ≠ 0) {off : Nat}
    (hoff : ip.blockAt disk (off / BSIZE) ≠ 0) {bs : List UInt8} (hfit : off % BSIZE + bs.length ≤ BSIZE) {k : Nat}
    (hk : ip.blockAt disk (k / BSIZE) ≠ 0) :
    ip.byte (Function.update disk (ip.blockAt disk (off / BSIZE))
        ((disk (ip.blockAt disk (off / BSIZE))).store (off % BSIZE) bs)) k =
      if off ≤ k ∧ k < off + bs.length then byteAt bs (k - off) else ip.byte disk k := by
  have hg := Grows.writeData hsb h ht hoff ((disk (ip.blockAt disk (off / BSIZE))).store (off % BSIZE) bs)
  have hmod : k % BSIZE < BSIZE := Nat.mod_lt _ (by decide)
  rw [Dinode.byte, hg.blockAt ht hk]
  by_cases hblock : k / BSIZE = off / BSIZE
  · rw [hblock, Function.update_self, Block.bytes_store_of_lt hmod, write]
    have hle : off % BSIZE ≤ k % BSIZE ↔ off ≤ k := by simp only [BSIZE] at hblock ⊢; omega
    by_cases hlo : off ≤ k
    · have hsub : k % BSIZE - off % BSIZE = k - off := by simp only [BSIZE] at hblock ⊢; omega
      rw [if_pos (hle.mpr hlo), hsub]
      by_cases hhi : k - off < bs.length
      · rw [if_pos ⟨hlo, by omega⟩, byteAt, List.getD_eq_getElem?_getD, List.getElem?_eq_getElem hhi]
        rfl
      · rw [if_neg (by omega), List.getElem?_eq_none (by omega), Dinode.byte, hblock]
        rfl
    · rw [if_neg (fun h => hlo (hle.mp h)), if_neg (fun h => hlo h.1), Dinode.byte, hblock]
  · have hne : ip.blockAt disk (k / BSIZE) ≠ ip.blockAt disk (off / BSIZE) :=
      fun heq => hblock (h.blockAt_inj ht hk heq)
    rw [Function.update_of_ne hne, if_neg (by simp only [BSIZE] at hblock hfit ⊢; omega), Dinode.byte]

/-! ## Files as a whole -/

/-- Inode `q`, its addresses and its blocks are the same on two disks. -/
structure SameFile (sb : Superblock) (disk disk' : Disk) (q : UInt32) : Prop where
  din : sb.dinodes disk' q = sb.dinodes disk q
  slot : ∀ s, (sb.dinodes disk q).slot disk' s = (sb.dinodes disk q).slot disk s
  data : ∀ s, (sb.dinodes disk q).slot disk s ≠ 0 →
    disk' ((sb.dinodes disk q).slot disk s) = disk ((sb.dinodes disk q).slot disk s)

theorem SameFile.blockAt {q : UInt32} (h : SameFile sb disk disk' q) (bn : Nat) :
    (sb.dinodes disk' q).blockAt disk' bn = (sb.dinodes disk q).blockAt disk bn := by
  rw [h.din]
  exact Dinode.blockAt_congr h.slot bn

theorem SameFile.contents {q : UInt32} (h : SameFile sb disk disk' q)
    (hm : (sb.dinodes disk q).Mapped disk (sb.dinodes disk q).size.toNat) :
    (sb.dinodes disk' q).contents disk' = (sb.dinodes disk q).contents disk := by
  have hsize : (sb.dinodes disk' q).size = (sb.dinodes disk q).size := by rw [h.din]
  rw [Dinode.contents, Dinode.contents, hsize]
  apply slice_congr
  intro k hk
  rw [Nat.zero_add]
  have hne : (sb.dinodes disk q).blockAt disk (k / BSIZE) ≠ 0 := hm _ (by simp only [BSIZE]; omega)
  obtain ⟨s, -, hs⟩ := Dinode.exists_slot hne
  have hdata := h.data s (hs ▸ hne)
  rw [Dinode.byte, h.blockAt, hs, hdata, Dinode.byte, hs]

/-- A write back does not touch blocks of data. -/
theorem iupdate_of_inUse (hsb : sb.Sane) (hi : inum < sb.ninodes) {b : UInt32} (hb : sb.IsData b) :
    iupdate sb disk inum ip b = disk b := by
  refine Function.update_of_ne ?_ ..
  rintro rfl
  exact hsb.not_isData_of_isInodes (hsb.isInodes_iblock hi).2 hb

/-- Other files, when an inode grows and is written back. -/
theorem Grows.sameFile (hsb : sb.Sane) (h : Grows sb inum disk (sb.dinodes disk inum) disk' ip')
    (hp : sb.Pending disk inum (sb.dinodes disk inum)) {ip'' : Dinode} {q : UInt32} (hq : q < sb.ninodes) (hne : q ≠ inum)
    (ht : (sb.dinodes disk q).type ≠ 0) : SameFile sb disk (iupdate sb disk' inum ip'') q := by
  have hlt := hp.lt
  have hself (s : Slot) : sb.refsWith disk inum (sb.dinodes disk inum) (q, s) = (sb.dinodes disk q).slot disk s :=
    Superblock.refsWith_other hq hne ht s
  have hdin : sb.dinodes disk' q = sb.dinodes disk q :=
    Superblock.dinodes_congr (h.inodes _ (hsb.isInodes_iblock hq).2)
  have hdata (s : Slot) (hs : (sb.dinodes disk q).slot disk s ≠ 0) :
      iupdate sb disk' inum ip'' ((sb.dinodes disk q).slot disk s) = disk ((sb.dinodes disk q).slot disk s) := by
    have huse := hp.accounts.owns.inUse (q, s) (by rwa [hself])
    have hsame := h.others (q, s) hne (by rwa [hself])
    rw [hself] at huse hsame
    rw [iupdate_of_inUse hsb hlt huse.1, hsame]
  refine ⟨?_, fun s => Dinode.slot_congr (hdata .indirect) s, hdata⟩
  rw [Superblock.dinodes_iupdate hsb hlt hq, Function.update_of_ne hne, hdin]

theorem Superblock.Pending.inUse_slot (h : sb.Pending disk inum ip) (ht : ip.type ≠ 0) {s : Slot} (hs : ip.slot disk s ≠ 0) :
    sb.InUse disk (ip.slot disk s) := by
  have := h.accounts.owns.inUse (inum, s)
  rw [Superblock.refsWith_self h.lt ht] at this
  exact this hs

/-- The write back of an inode leaves its blocks alone. -/
theorem Superblock.Pending.slot_iupdate (hsb : sb.Sane) (h : sb.Pending disk inum ip) (ht : ip.type ≠ 0) (ip' : Dinode) (s : Slot) :
    ip.slot (Fs.iupdate sb disk inum ip') s = ip.slot disk s :=
  Dinode.slot_congr (fun h0 => iupdate_of_inUse hsb h.lt (h.inUse_slot ht (s := .indirect) h0).1) s

/-! ## Reading -/

theorem Dinode.indirect_ne_of_blockAt {bn : Nat} (hd : ¬ bn < NDIRECT) (h : ip.blockAt disk bn ≠ 0) :
    bn - NDIRECT < NINDIRECT ∧ ip.indirect ≠ 0 := by
  obtain ⟨s, hs, heq⟩ := Dinode.exists_slot h
  have hi : bn - NDIRECT < NINDIRECT := by
    by_contra hi
    simp [Slot.ofIndex, hd, hi] at hs
  refine ⟨hi, fun h0 => ?_⟩
  rw [Slot.ofIndex_of_ge hd hi] at hs
  obtain rfl := Option.some.inj hs
  rw [heq, Dinode.slot, if_pos h0] at h
  exact h rfl

theorem bmap_of_blockAt {bn : Nat} (h : ip.blockAt disk bn ≠ 0) :
    bmap sb disk ip bn = .ok (ip.blockAt disk bn, disk, ip) := by
  rw [bmap, bmapLogged]
  by_cases hd : bn < NDIRECT
  · have hat : ip.blockAt disk bn = ip.addrs ⟨bn, Nat.lt_succ_of_lt hd⟩ := by
      rw [Dinode.blockAt, Slot.ofIndex_of_lt hd]; rfl
    rw [hat] at h ⊢
    rw [dif_pos hd, addrOrAllocLogged, if_neg h]
    rfl
  · obtain ⟨hi, hind⟩ := Dinode.indirect_ne_of_blockAt hd h
    have hat : ip.blockAt disk bn = ip.slot disk (.entry ⟨bn - NDIRECT, hi⟩) := by
      rw [Dinode.blockAt, Slot.ofIndex_of_ge hd hi]; rfl
    rw [hat, Dinode.slot, if_neg hind] at h ⊢
    have hind' : ip.addrs (Fin.last NDIRECT) ≠ 0 := hind
    simp only [dif_neg hd, if_pos hi, addrOrAllocLogged, if_neg hind', Logged.val_bind, Logged.val_pure]
    exact congrArg Logged.val (if_neg h)

/-- The bytes of a piece are consecutive bytes of the file. -/
theorem slice_piece {off m : Nat} (h : off % BSIZE + m ≤ BSIZE) :
    slice (disk (ip.blockAt disk (off / BSIZE))).bytes (off % BSIZE) m = slice (ip.byte disk) off m := by
  apply slice_congr
  intro i hi
  have hdiv : (off + i) / BSIZE = off / BSIZE := by simp only [BSIZE] at h ⊢; omega
  have hmod : (off + i) % BSIZE = off % BSIZE + i := by simp only [BSIZE] at h ⊢; omega
  rw [Dinode.byte, hdiv, hmod]

theorem readLoop_spec (n : Nat) :
    ∀ (fuel tot off : Nat) (dst : List UInt8), n - tot < fuel → tot ≤ n → ip.Mapped disk (off + (n - tot)) →
      readLoop sb (fun _ => true) n fuel tot off dst disk ip =
        .ok (n, dst ++ slice (ip.byte disk) off (n - tot), disk, ip) := by
  intro fuel
  induction fuel with
  | zero => exact fun tot off dst hfuel => absurd hfuel (Nat.not_lt_zero _)
  | succ fuel ih =>
      intro tot off dst hfuel hle hm
      rw [readLoop]
      by_cases htot : tot < n
      · have hne : ip.blockAt disk (off / BSIZE) ≠ 0 := hm _ (by simp only [BSIZE]; omega)
        have hmod : off % BSIZE < BSIZE := Nat.mod_lt _ (by decide)
        simp only [if_pos htot, bmap_of_blockAt hne, bind, Except.bind, if_neg hne, if_true]
        generalize hpiece : min (n - tot) (BSIZE - off % BSIZE) = m
        have hsplit : n - tot = m + (n - (tot + m)) := by omega
        rw [slice_piece (by omega), ih (tot + m) (off + m) _ (by omega) (by omega) (by rwa [Nat.add_assoc, ← hsplit]),
          List.append_assoc, ← slice_add, ← hsplit]
      · have : n - tot = 0 := by omega
        have heq : tot = n := by omega
        rw [if_neg htot, this, heq]
        simp [slice]

/-- `readi` into a buffer that can be written returns the bytes of the file and changes nothing. -/
theorem readi_spec (hm : ip.Mapped disk ip.size.toNat) {off n : UInt32} (hwrap : off.toNat + n.toNat < 2 ^ 32) :
    let bytes := ((ip.contents disk).drop off.toNat).take n.toNat
    readi sb disk ip (fun _ => true) off n = .ok (bytes.length, bytes, disk, ip) := by
  intro bytes
  have hbytes : bytes = slice (ip.byte disk) off.toNat (min n.toNat (ip.size.toNat - off.toNat)) := take_drop_slice ..
  have hadd : (off + n).toNat = off.toNat + n.toNat := by
    rw [UInt32.toNat_add]; omega
  unfold readi
  by_cases hoff : ip.size < off ∨ off + n < off
  · have : min n.toNat (ip.size.toNat - off.toNat) = 0 := by
      simp only [UInt32.lt_iff_toNat_lt, hadd] at hoff
      omega
    rw [if_pos hoff, hbytes, this]
    rfl
  · simp only [UInt32.lt_iff_toNat_lt, hadd] at hoff
    have hn : (if ip.size < off + n then ip.size - off else n).toNat = min n.toNat (ip.size.toNat - off.toNat) := by
      split
      · rename_i h
        rw [UInt32.lt_iff_toNat_lt, hadd] at h
        rw [UInt32.toNat_sub_of_le _ _ (UInt32.le_iff_toNat_le.mpr (by omega))]
        omega
      · rename_i h
        rw [UInt32.lt_iff_toNat_lt, hadd] at h
        omega
    rw [if_neg (by simpa only [UInt32.lt_iff_toNat_lt, hadd] using hoff)]
    simp only [hn, hbytes, length_slice]
    exact readLoop_spec _ _ 0 off.toNat [] (by omega) (by omega) (hm.mono (by omega))

/-- All that `readi` returns is the contents of the file. -/
theorem readi_iff (hm : ip.Mapped disk ip.size.toNat) {bs : List UInt8} (hlen : bs.length = ip.size.toNat) :
    (∀ off n : UInt32, off.toNat + n.toNat < 2 ^ 32 →
      let bytes := (bs.drop off.toNat).take n.toNat
      readi sb disk ip (fun _ => true) off n = .ok (bytes.length, bytes, disk, ip)) ↔ ip.contents disk = bs := by
  constructor
  · intro h
    have hsize : (0 : UInt32).toNat + ip.size.toNat < 2 ^ 32 := by simpa using ip.size.toNat_lt
    have hread := h 0 ip.size hsize
    rw [readi_spec hm hsize] at hread
    have hcontents : (ip.contents disk).length = ip.size.toNat := length_slice ..
    have hbytes := (Prod.mk.inj (Prod.mk.inj (Except.ok.inj hread)).2).1
    rw [UInt32.toNat_zero, List.drop_zero, List.drop_zero, List.take_of_length_le hcontents.le,
      List.take_of_length_le hlen.le] at hbytes
    exact hbytes
  · rintro rfl off n hwrap
    exact readi_spec hm hwrap

end Xv6Net.Fs
