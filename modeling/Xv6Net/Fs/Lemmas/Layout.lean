import Mathlib.Tactic.Common
import Mathlib.Tactic.IntervalCases
import Xv6Net.Fs.Layout
import Xv6Net.Fs.Lemmas.Disk

/-! Structures and bits in blocks, and what a change of a block changes in the view of a disk. -/

namespace Xv6Net.Fs

open Lib

/-! ## Inodes in a block -/

theorem length_flatMap_bytes32 (l : List UInt32) : (l.flatMap bytes32).length = 4 * l.length := by
  induction l with
  | nil => rfl
  | cons x l ih => simp [ih]; omega

theorem load32_flatMap_bytes32 (a : List UInt8) (l : List UInt32) {i : Nat} (hi : i < l.length) :
    load32 (a ++ l.flatMap bytes32) (a.length + 4 * i) = l[i] := by
  have hl : l.flatMap bytes32 = (l.take i).flatMap bytes32 ++ (bytes32 l[i] ++ (l.drop (i + 1)).flatMap bytes32) := by
    rw [← List.flatMap_cons, ← List.flatMap_append, List.getElem_cons_drop, List.take_append_drop]
  have hlen : (a ++ (l.take i).flatMap bytes32).length = a.length + 4 * i := by
    rw [List.length_append, length_flatMap_bytes32, List.length_take, Nat.min_eq_left (Nat.le_of_lt hi)]
  rw [hl, ← List.append_assoc, ← hlen]
  exact load32_append_bytes32 _ _ _

@[simp] theorem Dinode.length_encode (d : Dinode) : d.encode.length = DINODE_SIZE := by
  simp only [Dinode.encode, List.length_append, length_bytes16, length_bytes32, length_flatMap_bytes32, List.length_ofFn]
  rfl

theorem Dinode.decode_encode (d : Dinode) : Dinode.decode d.encode = d := by
  have htype := load16_append_bytes16 [] d.type (bytes16 d.major ++ (bytes16 d.minor ++ (bytes16 d.nlink ++
    (bytes32 d.size ++ (List.ofFn d.addrs).flatMap bytes32))))
  have hmajor := load16_append_bytes16 (bytes16 d.type) d.major (bytes16 d.minor ++ (bytes16 d.nlink ++
    (bytes32 d.size ++ (List.ofFn d.addrs).flatMap bytes32)))
  have hminor := load16_append_bytes16 (bytes16 d.type ++ bytes16 d.major) d.minor (bytes16 d.nlink ++
    (bytes32 d.size ++ (List.ofFn d.addrs).flatMap bytes32))
  have hnlink := load16_append_bytes16 (bytes16 d.type ++ bytes16 d.major ++ bytes16 d.minor) d.nlink
    (bytes32 d.size ++ (List.ofFn d.addrs).flatMap bytes32)
  have hsize := load32_append_bytes32 (bytes16 d.type ++ bytes16 d.major ++ bytes16 d.minor ++ bytes16 d.nlink) d.size
    ((List.ofFn d.addrs).flatMap bytes32)
  have haddrs (i : Fin (NDIRECT + 1)) : load32 d.encode (12 + 4 * i) = d.addrs i := by
    have := load32_flatMap_bytes32 (bytes16 d.type ++ bytes16 d.major ++ bytes16 d.minor ++ bytes16 d.nlink ++
      bytes32 d.size) (List.ofFn d.addrs) (show i.val < _ by rw [List.length_ofFn]; exact i.isLt)
    rwa [List.getElem_ofFn] at this
  simp only [List.append_assoc, List.length_append, length_bytes16, List.length_nil, List.nil_append]
    at htype hmajor hminor hnlink hsize
  simp only [Dinode.decode, haddrs]
  simp only [Dinode.encode, List.append_assoc, htype, hmajor, hminor, hnlink, hsize]

namespace Block

variable {b : Block} {i j : Nat}

theorem dinode_setDinode_self (h : i < IPB) : (b.setDinode i d).dinode i = d := by
  have : slice (b.setDinode i d).bytes (DINODE_SIZE * i) DINODE_SIZE = d.encode :=
    slice_store_self d.length_encode (by simp only [IPB, BSIZE, DINODE_SIZE] at h ⊢; omega)
  rw [dinode, this, Dinode.decode_encode]

theorem dinode_setDinode_of_ne (h : j ≠ i) : (b.setDinode i d).dinode j = b.dinode j := by
  have : slice (b.setDinode i d).bytes (DINODE_SIZE * j) DINODE_SIZE = slice b.bytes (DINODE_SIZE * j) DINODE_SIZE :=
    slice_store_of_disjoint (by simp only [Dinode.length_encode, DINODE_SIZE]; omega)
  rw [dinode, this, dinode]

theorem bytes_zero (i : Nat) : Block.zero.bytes i = 0 := by simp [bytes, Block.zero]

theorem byteAt_slice_zero (off n i : Nat) : byteAt (slice Block.zero.bytes off n) i = 0 := by
  simp only [byteAt, slice, bytes_zero, List.getD_eq_getElem?_getD, List.getElem?_map]
  cases (List.range n)[i]? <;> rfl

theorem word_zero (i : Nat) : Block.zero.word i = 0 := by
  simp [word, load32, load16, byteAt_slice_zero]

theorem dinode_zero (i : Nat) : Block.zero.dinode i = Dinode.zero := by
  simp [dinode, Dinode.decode, load32, load16, byteAt_slice_zero, Dinode.zero]

/-! ## Bits -/

theorem and_mask_ne_zero (x : UInt8) (i : Nat) : (x &&& mask i != 0) = x.toNat.testBit (i % 8) := by
  have hmask : (mask i).toNat = 2 ^ (i % 8) := by
    have : i % 8 < 8 := Nat.mod_lt _ (by decide)
    unfold mask
    interval_cases i % 8 <;> rfl
  have h : (x &&& mask i).toNat = (x.toNat.testBit (i % 8)).toNat * 2 ^ (i % 8) := by
    rw [UInt8.toNat_and, hmask, Nat.and_two_pow]
  cases hb : x.toNat.testBit (i % 8) with
  | false => simpa [hb, ← UInt8.toNat_inj] using h
  | true =>
      have hne : x &&& mask i ≠ 0 := by
        intro h0
        have := Nat.two_pow_pos (i % 8)
        rw [h0, hb, Bool.toNat_true, Nat.one_mul] at h
        exact absurd h (Nat.ne_of_lt this)
      simpa using hne

theorem mask_testBit (i : Nat) {k : Nat} (hk : k < 8) : (mask i).toNat.testBit k = decide (k = i % 8) := by
  have : i % 8 < 8 := Nat.mod_lt _ (by decide)
  unfold mask
  generalize i % 8 = m at this
  interval_cases m <;> interval_cases k <;> rfl

theorem bit_eq (b : Block) (i : Nat) : b.bit i = (b.bytes (i / 8)).toNat.testBit (i % 8) := and_mask_ne_zero _ _

theorem bytes_store_singleton {x : UInt8} (h : i < BSIZE) : (b.store i [x]).bytes j = if j = i then x else b.bytes j := by
  by_cases hj : j = i
  · subst hj
    simp [bytes_store_of_lt h, write]
  · rw [if_neg hj, bytes_store_of_notMem (by simp; omega)]

theorem bit_setBit (hi : i < BPB) : (b.setBit i).bit j = (decide (j = i) || b.bit j) := by
  have hk : j % 8 < 8 := Nat.mod_lt _ (by decide)
  rw [bit_eq, bit_eq, setBit, bytes_store_singleton (by simp only [BPB] at hi; omega)]
  split
  · rename_i hbyte
    rw [UInt8.toNat_or, Nat.testBit_or, mask_testBit i hk, ← hbyte, Bool.or_comm]
    congr 1
    exact decide_eq_decide.mpr ⟨fun h => by omega, fun h => by rw [h]⟩
  · rename_i hbyte
    have : j ≠ i := by rintro rfl; exact hbyte rfl
    simp [this]

theorem bit_clearBit (hi : i < BPB) : (b.clearBit i).bit j = (!decide (j = i) && b.bit j) := by
  have hk : j % 8 < 8 := Nat.mod_lt _ (by decide)
  rw [bit_eq, bit_eq, clearBit, bytes_store_singleton (by simp only [BPB] at hi; omega)]
  split
  · rename_i hbyte
    rw [UInt8.toNat_and, Nat.testBit_and, ← hbyte, Bool.and_comm]
    congr 1
    have hnot : UInt8.size - 1 - (mask i).toNat = 2 ^ 8 - ((mask i).toNat + 1) := by simp only [UInt8.size]; omega
    rw [UInt8.toNat_not, hnot, Nat.testBit_two_pow_sub_succ (mask i).toNat_lt, mask_testBit i hk]
    simp only [hk, decide_true, Bool.true_and]
    exact congrArg _ (decide_eq_decide.mpr ⟨fun h => by omega, fun h => by rw [h]⟩)
  · rename_i hbyte
    have : j ≠ i := by rintro rfl; exact hbyte rfl
    simp [this]

end Block

/-! ## Regions of the disk -/

namespace Superblock

variable {sb : Superblock} {disk disk' : Disk} {b c inum k : UInt32}

theorem Sane.isInodes_iblock (h : sb.Sane) (hi : inum < sb.ninodes) :
    (sb.iblock inum).toNat = inum.toNat / IPB + sb.inodestart.toNat ∧ sb.IsInodes (sb.iblock inum) := by
  have hlt : inum.toNat < sb.ninodes.toNat := hi
  have hmax := sb.bmapstart.toNat_lt
  have hfit := h.inodes
  simp only [IPB, BSIZE, DINODE_SIZE] at hfit
  have : (sb.iblock inum).toNat = inum.toNat / IPB + sb.inodestart.toNat := by
    simp only [iblock, UInt32.toNat_ofNat', IPB, BSIZE, DINODE_SIZE]; omega
  refine ⟨this, ?_⟩
  simp only [IsInodes, this, IPB, BSIZE, DINODE_SIZE]; omega

theorem Sane.isBitmap_bblock (h : sb.Sane) (hb : b.toNat < sb.size.toNat) :
    (sb.bblock b).toNat = b.toNat / BPB + sb.bmapstart.toNat ∧ sb.IsBitmap (sb.bblock b) := by
  have hfit := h.bitmap
  have hsize := h.size
  simp only [datastart, BPB, BSIZE] at hfit hsize
  have : (sb.bblock b).toNat = b.toNat / BPB + sb.bmapstart.toNat := by
    simp only [bblock, UInt32.toNat_ofNat', BPB, BSIZE]; omega
  refine ⟨this, ?_⟩
  simp only [IsBitmap, this, datastart, BPB, BSIZE]; omega

theorem Sane.starts (h : sb.Sane) : sb.inodestart.toNat ≤ sb.bmapstart.toNat ∧ sb.bmapstart.toNat ≤ sb.datastart :=
  ⟨Nat.le_trans (Nat.le_add_right ..) h.inodes, Nat.le_trans (Nat.le_add_right ..) h.bitmap⟩

theorem Sane.inFs_of_isInodes (h : sb.Sane) (hb : sb.IsInodes b) : sb.InFs b := by
  have := h.starts
  simp only [IsInodes, InFs, datastart] at *
  omega

theorem Sane.inFs_of_isBitmap (h : sb.Sane) (hb : sb.IsBitmap b) : sb.InFs b := by
  have := h.starts
  simp only [IsBitmap, InFs, datastart] at *
  omega

theorem Sane.inFs_of_isData (h : sb.Sane) (hb : sb.IsData b) : sb.InFs b := by
  have := h.starts
  simp only [IsData, InFs, datastart] at *
  omega

theorem IsData.not_isBitmap (hb : sb.IsData b) : ¬ sb.IsBitmap b := by
  simp only [IsData, IsBitmap] at hb ⊢; omega

theorem IsInodes.not_isBitmap (hb : sb.IsInodes b) : ¬ sb.IsBitmap b := by
  simp only [IsInodes, IsBitmap] at hb ⊢; omega

theorem Sane.not_isData_of_isInodes (h : sb.Sane) (hb : sb.IsInodes b) : ¬ sb.IsData b := by
  have := h.starts
  simp only [IsInodes, IsData] at hb ⊢; omega

theorem Sane.datastart_pos (h : sb.Sane) (hb : sb.IsData b) : 0 < sb.datastart := by
  have := h.bitmap
  simp only [IsData, BPB, BSIZE] at hb this
  omega

theorem Sane.isData_ne_zero (h : sb.Sane) (hb : sb.IsData b) : b ≠ 0 := by
  rintro rfl
  have := h.datastart_pos hb
  have := hb.1
  rw [UInt32.toNat_zero] at this
  omega

/-! ## Inodes and bits of the disk -/

theorem dinodes_congr (h : disk' (sb.iblock inum) = disk (sb.iblock inum)) :
    sb.dinodes disk' inum = sb.dinodes disk inum := by rw [dinodes, h, dinodes]

theorem Sane.dinodes_setDinode (h : sb.Sane) (hi : inum < sb.ninodes) (hk : k < sb.ninodes) :
    sb.dinodes (Function.update disk (sb.iblock inum) ((disk (sb.iblock inum)).setDinode (inum.toNat % IPB) d)) k =
      Function.update (sb.dinodes disk) inum d k := by
  have hmod : inum.toNat % IPB < IPB := Nat.mod_lt _ (by decide)
  by_cases hki : k = inum
  · subst hki
    rw [dinodes, Function.update_self, Block.dinode_setDinode_self hmod, Function.update_self]
  · rw [Function.update_of_ne hki, dinodes]
    by_cases hblock : sb.iblock k = sb.iblock inum
    · have hne : k.toNat % IPB ≠ inum.toNat % IPB := by
        intro hmod
        have := (h.isInodes_iblock hi).1
        rw [← hblock, (h.isInodes_iblock hk).1] at this
        have hkn : k.toNat ≠ inum.toNat := fun heq => hki (UInt32.toNat_inj.mp heq)
        simp only [IPB, BSIZE, DINODE_SIZE] at this hmod
        omega
      rw [hblock, Function.update_self, Block.dinode_setDinode_of_ne hne, dinodes, hblock]
    · rw [Function.update_of_ne hblock, dinodes]

theorem bit_congr (h : disk' (sb.bblock b) = disk (sb.bblock b)) : sb.bit disk' b = sb.bit disk b := by
  rw [bit, h, bit]

/-- A change `f` of the bit of block `b` only. -/
theorem Sane.bit_update (h : sb.Sane) (hb : b.toNat < sb.size.toNat) (hc : c.toNat < sb.size.toNat) {blk : Block}
    (hother : ∀ j, j ≠ b.toNat % BPB → blk.bit j = (disk (sb.bblock b)).bit j) :
    sb.bit (Function.update disk (sb.bblock b) blk) c =
      if c = b then blk.bit (b.toNat % BPB) else sb.bit disk c := by
  by_cases hcb : c = b
  · subst hcb
    rw [if_pos rfl, bit, Function.update_self]
  · rw [if_neg hcb, bit]
    by_cases hblock : sb.bblock c = sb.bblock b
    · have hne : c.toNat % BPB ≠ b.toNat % BPB := by
        intro hmod
        have := (h.isBitmap_bblock hb).1
        rw [← hblock, (h.isBitmap_bblock hc).1] at this
        have hcn : c.toNat ≠ b.toNat := fun heq => hcb (UInt32.toNat_inj.mp heq)
        simp only [BPB, BSIZE] at this hmod
        omega
      rw [hblock, Function.update_self, hother _ hne, bit, hblock]
    · rw [Function.update_of_ne hblock, bit]

end Superblock

/-! ## Addresses -/

namespace Slot

/-- The place that `addrs[i]` is. -/
def ofAddr (i : Fin (NDIRECT + 1)) : Slot := if h : i.val < NDIRECT then .direct ⟨i, h⟩ else .indirect

theorem ofAddr_castSucc (i : Fin NDIRECT) : ofAddr i.castSucc = .direct i := by simp [ofAddr]

theorem ofAddr_last : ofAddr (Fin.last NDIRECT) = .indirect := by simp [ofAddr]

end Slot

namespace Dinode

variable {disk disk' : Disk} {d d' : Dinode}

theorem slot_congr (h : d.indirect ≠ 0 → disk' d.indirect = disk d.indirect) (s : Slot) :
    d.slot disk' s = d.slot disk s := by
  cases s with
  | direct i => rfl
  | indirect => rfl
  | entry j =>
      by_cases h0 : d.indirect = 0
      · simp only [slot, h0, if_true]
      · simp only [slot, if_neg h0, h h0]

theorem slot_of_addrs (h : d'.addrs = d.addrs) : d'.slot disk = d.slot disk := by
  cases d
  cases d'
  cases h
  funext s
  cases s <;> rfl

theorem slot_ofAddr (i : Fin (NDIRECT + 1)) : d.slot disk (.ofAddr i) = d.addrs i := by
  unfold Slot.ofAddr
  split
  · rfl
  · rename_i h
    have : i = Fin.last NDIRECT := Fin.ext (by have := i.isLt; simp only [Fin.val_last]; omega)
    rw [this]; rfl

@[simp] theorem addrs_setAddr (d : Dinode) (i : Fin (NDIRECT + 1)) (b : UInt32) :
    (d.setAddr i b).addrs = Function.update d.addrs i b := rfl

@[simp] theorem indirect_setAddr_last (d : Dinode) (b : UInt32) : (d.setAddr (Fin.last NDIRECT) b).indirect = b := by
  simp [indirect]

theorem indirect_setAddr_of_ne {i : Fin (NDIRECT + 1)} (h : i ≠ Fin.last NDIRECT) (b : UInt32) :
    (d.setAddr i b).indirect = d.indirect := by simp [indirect, h.symm]

/-- A change of an address changes this place only. For the address of the indirect block there must have been none,
and no address may be in the new block. -/
theorem slot_setAddr {i : Fin (NDIRECT + 1)} {b : UInt32}
    (hind : i = Fin.last NDIRECT → d.indirect = 0 ∧ ∀ j, (disk b).word j = 0) :
    (d.setAddr i b).slot disk = Function.update (d.slot disk) (.ofAddr i) b := by
  funext s
  by_cases hs : s = .ofAddr i
  · subst hs
    rw [slot_ofAddr, addrs_setAddr, Function.update_self, Function.update_self]
  · rw [Function.update_of_ne hs]
    cases s with
    | direct k =>
        have : k.castSucc ≠ i := by rintro rfl; exact hs (Slot.ofAddr_castSucc k).symm
        simp only [slot, setAddr, Function.update_of_ne this]
    | indirect =>
        have : Fin.last NDIRECT ≠ i := by rintro rfl; exact hs Slot.ofAddr_last.symm
        simp only [slot, indirect, setAddr, Function.update_of_ne this]
    | entry j =>
        by_cases hi : i = Fin.last NDIRECT
        · obtain ⟨h0, hz⟩ := hind hi
          subst hi
          simp only [slot, h0, if_true, hz, ite_self, indirect_setAddr_last]
        · simp only [slot, indirect_setAddr_of_ne hi]

theorem blockAt_congr (h : ∀ s, d'.slot disk' s = d.slot disk s) (bn : Nat) : d'.blockAt disk' bn = d.blockAt disk bn := by
  have : d'.slot disk' = d.slot disk := funext h
  rw [blockAt, this, blockAt]

theorem Mapped.congr {size : Nat} (hm : d.Mapped disk size) (h : ∀ s, d'.slot disk' s = d.slot disk s) :
    d'.Mapped disk' size := by
  intro bn hbn
  rw [blockAt_congr h]
  exact hm bn hbn

end Dinode

namespace Superblock

variable {sb : Superblock} {disk disk' : Disk} {din din' : UInt32 → Dinode} {inum : UInt32} {ip : Dinode}

theorem refs_of_alloc {q : UInt32} (h : q < sb.ninodes ∧ (din q).type ≠ 0) (s : Slot) :
    sb.refs disk din (q, s) = (din q).slot disk s := if_pos h

theorem refs_eq_of_not_alloc {q : UInt32} (h : ¬ (q < sb.ninodes ∧ (din q).type ≠ 0)) (s : Slot) :
    sb.refs disk din (q, s) = 0 := if_neg h

theorem refs_congr (h : ∀ q < sb.ninodes, din' q = din q) : sb.refs disk din' = sb.refs disk din := by
  funext p
  by_cases hp : p.1 < sb.ninodes
  · simp only [refs, h p.1 hp]
  · simp only [refs, hp, false_and, if_false]

/-- Addresses change only with the inodes and the indirect blocks. -/
theorem refs_congr_disk
    (h : ∀ q, sb.refs disk din (q, .indirect) ≠ 0 → disk' (sb.refs disk din (q, .indirect)) =
      disk (sb.refs disk din (q, .indirect))) : sb.refs disk' din = sb.refs disk din := by
  funext ⟨q, s⟩
  by_cases hq : q < sb.ninodes ∧ (din q).type ≠ 0
  · rw [refs_of_alloc hq, refs_of_alloc hq]
    have := h q
    rw [refs_of_alloc hq] at this
    exact Dinode.slot_congr this s
  · rw [refs_eq_of_not_alloc hq, refs_eq_of_not_alloc hq]

/-- A disk with no files. -/
theorem Sane.wellFormed_empty (hsb : sb.Sane) (htype : ∀ inum < sb.ninodes, (sb.dinodes disk inum).type = 0)
    (hbit : ∀ b : UInt32, b.toNat < sb.size.toNat → sb.bit disk b = decide (b.toNat < sb.datastart)) : sb.WellFormed disk := by
  have hrefs (p : UInt32 × Slot) : sb.refs disk (sb.dinodes disk) p = 0 :=
    refs_eq_of_not_alloc (fun h => h.2 (htype p.1 h.1)) p.2
  refine ⟨hsb, ⟨⟨fun p hp => absurd (hrefs p) hp, fun p _ hp => absurd (hrefs p) hp, ?_⟩, ?_⟩,
    fun inum hi ht => absurd (htype inum hi) ht⟩
  · rintro b - ⟨⟨hlo, hhi⟩, hu⟩
    rw [hbit b hhi, decide_eq_true_eq] at hu
    omega
  · intro b hb
    have hsize : sb.datastart ≤ sb.size.toNat := Nat.sub_le ..
    rw [hbit b (by omega), decide_eq_true_eq]
    exact hb

/-- In the numbers of the inodes and blocks, which can be checked one by one. -/
theorem Sane.wellFormed_blank (hsb : sb.Sane) (hzero : ∀ i : Fin sb.ninodes.toNat, disk (sb.iblock (.ofNat i)) = .zero)
    (hbit : ∀ i : Fin sb.size.toNat, sb.bit disk (.ofNat i) = decide (i.val < sb.datastart)) : sb.WellFormed disk := by
  refine hsb.wellFormed_empty (fun inum hi => ?_) fun b hb => ?_
  · have := hzero ⟨inum.toNat, hi⟩
    rw [UInt32.ofNat_toNat] at this
    rw [dinodes, this, Block.dinode_zero]
    rfl
  · have := hbit ⟨b.toNat, hb⟩
    rwa [UInt32.ofNat_toNat] at this

end Superblock

end Xv6Net.Fs
