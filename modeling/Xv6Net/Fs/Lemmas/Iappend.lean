import Xv6Net.Fs.Lemmas.Wrote
import Xv6Net.Fs.Mkfs

/-!
# `iappend` does what `writei` would do

On the image with the blocks below `freeblock` marked in the bitmap, the first block that `balloc` of the kernel finds
is block `freeblock`. So the loop of `iappend` takes the same steps as the loop of `writei`.
-/

namespace Xv6Net.Fs.Mkfs

open Lib

variable {din' : Dinode} {image' : Disk} {fbn freeblock' off off' : Nat} {b x : UInt32}

theorem sb_sane : sb.Sane := ⟨by decide, by decide, by decide⟩

/-- The image with the blocks below `freeblock` marked. -/
def marked (image : Disk) (freeblock : Nat) : Disk := Function.update image sb.bmapstart (bitmap freeblock)

/-- The blocks from `freeblock` on have never been written. -/
def Zeroed (image : Disk) (freeblock : Nat) : Prop := ∀ b : UInt32, freeblock ≤ b.toNat → image b = .zero

variable {image : Disk} {freeblock : Nat} {inum : UInt32} {din : Dinode}

theorem bitmap_succ (n : Nat) : bitmap (n + 1) = (bitmap n).setBit n := by
  simp [bitmap, List.range_succ]

theorem bit_zero (j : Nat) : Block.zero.bit j = false := by simp [Block.bit_eq, Block.bytes_zero]

theorem bit_bitmap {n : Nat} (hn : n ≤ BPB) (j : Nat) : (bitmap n).bit j = decide (j < n) := by
  induction n with
  | zero => simp [bitmap, bit_zero]
  | succ n ih =>
      rw [bitmap_succ, Block.bit_setBit (by omega), ih (by omega), ← Bool.decide_or]
      exact decide_eq_decide.mpr (by omega)

theorem bblock_eq (hb : b.toNat < FSSIZE) : sb.bblock b = sb.bmapstart := by
  have : b.toNat / BPB = 0 := Nat.div_eq_of_lt (by simp only [FSSIZE] at hb; simp only [BPB, BSIZE]; omega)
  rw [Superblock.bblock, this, Nat.zero_add, UInt32.ofNat_toNat]

theorem marked_bmapstart : marked image freeblock sb.bmapstart = bitmap freeblock := Function.update_self ..

theorem marked_of_ne (hb : b ≠ sb.bmapstart) : marked image freeblock b = image b := Function.update_of_ne hb ..

theorem isData_iff : sb.IsData b ↔ nmeta ≤ b.toNat ∧ b.toNat < FSSIZE := by
  have h : sb.datastart = nmeta := by decide
  have h' : sb.size.toNat = FSSIZE := by decide
  rw [Superblock.IsData, h, h']

theorem ne_bmapstart (hb : nmeta ≤ b.toNat) : b ≠ sb.bmapstart := by
  rintro rfl
  exact absurd hb (by decide)

theorem bit_marked (hfb : freeblock ≤ FSSIZE) (hb : b.toNat < FSSIZE) :
    sb.bit (marked image freeblock) b = decide (b.toNat < freeblock) := by
  have hmod : b.toNat % BPB = b.toNat :=
    Nat.mod_eq_of_lt (by simp only [FSSIZE] at hb; simp only [BPB, BSIZE]; omega)
  rw [Superblock.bit, bblock_eq hb, marked_bmapstart, hmod, bit_bitmap]
  simp only [FSSIZE] at hfb
  simp only [BPB, BSIZE]; omega

/-- What has an address is below `freeblock`. -/
theorem lt_of_inUse (hfb : freeblock ≤ FSSIZE) (h : sb.InUse (marked image freeblock) b) :
    nmeta ≤ b.toNat ∧ b.toNat < freeblock := by
  obtain ⟨hdata, hbit⟩ := h
  obtain ⟨hlo, hhi⟩ := isData_iff.mp hdata
  rw [bit_marked hfb hhi, decide_eq_true_eq] at hbit
  exact ⟨hlo, hbit⟩

theorem toNat_freeblock (hfb : freeblock < FSSIZE) : (UInt32.ofNat freeblock).toNat = freeblock := by
  simp only [FSSIZE] at hfb
  rw [UInt32.toNat_ofNat']; omega

theorem ofNat_freeblock_ne_zero (hlo : nmeta ≤ freeblock) (hfb : freeblock < FSSIZE) : UInt32.ofNat freeblock ≠ 0 := by
  intro h
  have := toNat_freeblock hfb
  rw [h] at this
  exact absurd hlo (by rw [← this]; decide)

/-- The next free block is the one that the kernel would take. -/
theorem balloc_marked (hlo : nmeta ≤ freeblock) (hfb : freeblock < FSSIZE) (hz : Zeroed image freeblock) :
    Fs.balloc sb (marked image freeblock) = (.ofNat freeblock, marked image (freeblock + 1)) := by
  have hnat := toNat_freeblock hfb
  have hsize : sb.size.toNat = FSSIZE := by decide
  have hblock : sb.bblock (.ofNat 0) = sb.bmapstart := bblock_eq (by decide)
  have hfree : freeBit sb (marked image freeblock) 0 = some freeblock := by
    rw [freeBit, hblock, marked_bmapstart, List.find?_range_eq_some]
    have hmap : freeblock ≤ BPB := by simp only [FSSIZE] at hfb; simp only [BPB, BSIZE]; omega
    refine ⟨?_, ?_, fun j hj => ?_⟩
    · simp [bit_bitmap hmap, hsize, hfb]
    · simp only [FSSIZE] at hfb
      simp only [List.mem_range, BPB, BSIZE]; omega
    · simp [bit_bitmap hmap, hj]
  have hone : (sb.size.toNat + BPB - 1) / BPB = 1 := by decide
  have hzero : image (.ofNat freeblock) = .zero := hz _ (by omega)
  have hne : UInt32.ofNat freeblock ≠ sb.bmapstart := ne_bmapstart (by omega)
  have hfound : (List.range ((sb.size.toNat + BPB - 1) / BPB)).findSome? (fun k =>
      (freeBit sb (marked image freeblock) (k * BPB)).map (k * BPB, ·)) = some (0, freeblock) := by
    rw [hone]
    simp [List.range_one, hfree]
  simp only [Fs.balloc, ballocLogged, hfound, hblock, marked_bmapstart, Nat.zero_add, ← bitmap_succ, Logged.val_bind,
    Logged.val_use]
  refine congrArg (Prod.mk _) ?_
  rw [marked, Function.update_idem, bzero, ← hzero, Function.update_comm hne.symm, Function.update_eq_self, marked]

/-- Taking a direct address or the one of the indirect block. -/
theorem addrOrAlloc_marked (hlo : nmeta ≤ freeblock) (hz : Zeroed image freeblock) (din : Dinode) (i : Fin (NDIRECT + 1))
    (hfb : (addrOrTake freeblock din i).1 ≤ FSSIZE) :
    addrOrAlloc sb (marked image freeblock) din i =
      ((addrOrTake freeblock din i).2.addrs i, marked image (addrOrTake freeblock din i).1, (addrOrTake freeblock din i).2) := by
  unfold addrOrAlloc addrOrAllocLogged addrOrTake at *
  by_cases h0 : din.addrs i = 0
  · simp only [if_pos h0] at hfb ⊢
    simp only [Logged.val_bind, ballocLogged_val, balloc_marked hlo (by omega) hz, if_neg (ofNat_freeblock_ne_zero hlo (by omega)),
      Logged.val_pure, Dinode.addrs_setAddr, Function.update_self]
  · simp only [if_neg h0, Logged.val_pure]

theorem Zeroed.mono (hz : Zeroed image freeblock) (h : freeblock ≤ freeblock') : Zeroed image freeblock' :=
  fun b hb => hz b (Nat.le_trans h hb)

theorem addrOrTake_fst (freeblock : Nat) (din : Dinode) (i : Fin (NDIRECT + 1)) :
    (addrOrTake freeblock din i).1 = freeblock + if din.addrs i = 0 then 1 else 0 := by
  unfold addrOrTake; split <;> rfl

theorem addrOrTake_addr_ne (hlo : nmeta ≤ freeblock) (din : Dinode) (i : Fin (NDIRECT + 1))
    (hfb : (addrOrTake freeblock din i).1 ≤ FSSIZE) : (addrOrTake freeblock din i).2.addrs i ≠ 0 := by
  rw [addrOrTake_fst] at hfb
  unfold addrOrTake
  by_cases h0 : din.addrs i = 0
  · rw [if_pos h0] at hfb
    simpa [h0] using ofNat_freeblock_ne_zero hlo (by omega)
  · simp [h0]

/-- The number of blocks that have to be taken for block `fbn`. -/
def need (disk : Disk) (din : Dinode) (fbn : Nat) : Nat :=
  (if din.blockAt disk fbn = 0 then 1 else 0) + if NDIRECT ≤ fbn ∧ din.indirect = 0 then 1 else 0

/-- Block `fbn` of the file, in both programs. -/
structure Took (image : Disk) (freeblock : Nat) (din : Dinode) (fbn : Nat) (x : UInt32) (image' : Disk) (freeblock' : Nat)
    (din' : Dinode) : Prop where
  bmap : bmap sb (marked image freeblock) din fbn = .ok (x, marked image' freeblock', din')
  ne : x ≠ 0
  zeroed : Zeroed image' freeblock'
  count : freeblock' = freeblock + need (marked image freeblock) din fbn
  low : ∀ b : UInt32, b.toNat < nmeta → image' b = image b

theorem blockFor_direct (hlo : nmeta ≤ freeblock) (hz : Zeroed image freeblock) (hd : fbn < NDIRECT)
    (hrun : blockFor image freeblock din fbn = (x, image', freeblock', din'))
    (hfb : freeblock + need (marked image freeblock) din fbn ≤ FSSIZE) :
    Took image freeblock din fbn x image' freeblock' din' := by
  simp only [blockFor, dif_pos hd, Prod.mk.injEq] at hrun
  obtain ⟨rfl, rfl, rfl, rfl⟩ := hrun
  have hat : din.blockAt (marked image freeblock) fbn = din.addrs ⟨fbn, Nat.lt_succ_of_lt hd⟩ := by
    rw [Dinode.blockAt, Slot.ofIndex_of_lt hd]; rfl
  have hno : ¬ (NDIRECT ≤ fbn ∧ din.indirect = 0) := by omega
  have hcount : (addrOrTake freeblock din ⟨fbn, Nat.lt_succ_of_lt hd⟩).1 = freeblock + need (marked image freeblock) din fbn := by
    simp only [addrOrTake_fst, need, hat, if_neg hno, Nat.add_zero]
  refine ⟨?_, addrOrTake_addr_ne hlo din _ (by rwa [hcount]), hz.mono (by omega), hcount, fun _ _ => rfl⟩
  rw [Fs.bmap, bmapLogged, dif_pos hd, Logged.val_bind, addrOrAllocLogged_val, addrOrAlloc_marked hlo hz din _ (by rwa [hcount])]
  rfl

/-- The indirect block, in both programs. -/
structure TookIndirect (image : Disk) (freeblock : Nat) (inum : UInt32) (din : Dinode) (freeblock' : Nat) (din' : Dinode) :
    Prop where
  alloc : addrOrAlloc sb (marked image freeblock) din (Fin.last NDIRECT) = (din'.indirect, marked image freeblock', din')
  ne : din'.indirect ≠ 0
  lo : nmeta ≤ din'.indirect.toNat
  hi : din'.indirect.toNat < freeblock'
  count : freeblock' = freeblock + if din.indirect = 0 then 1 else 0
  slot : ∀ j, (if din.indirect = 0 then 0 else (marked image freeblock din.indirect).word j) = (image din'.indirect).word j

section

variable (h : sb.Pending (marked image freeblock) inum din)
include h

theorem addrOrTake_indirect (ht : din.type ≠ 0) (hlo : nmeta ≤ freeblock) (hz : Zeroed image freeblock)
    (hrun : addrOrTake freeblock din (Fin.last NDIRECT) = (freeblock', din')) (hfb : freeblock' ≤ FSSIZE) :
    TookIndirect image freeblock inum din freeblock' din' := by
  have hcount := addrOrTake_fst freeblock din (Fin.last NDIRECT)
  have halloc := addrOrAlloc_marked hlo hz din (Fin.last NDIRECT) (by rwa [hrun])
  have hne := addrOrTake_addr_ne hlo din (Fin.last NDIRECT) (by rwa [hrun])
  obtain ⟨bp, disk₁, din₁, heq, hmaps, -⟩ := addrOrAlloc_spec sb_sane h ht (Fin.last NDIRECT)
  rw [hrun] at hcount halloc hne
  rw [halloc] at heq
  obtain ⟨rfl, rfl, rfl⟩ : _ ∧ _ ∧ _ := by simpa only [Prod.mk.injEq] using heq
  have huse : sb.InUse (marked image freeblock') din'.indirect := by
    have := hmaps.pending.accounts.owns.inUse (inum, .indirect)
    rw [Superblock.refsWith_self h.lt (hmaps.type ▸ ht)] at this
    exact this hne
  obtain ⟨hdlo, hdhi⟩ := lt_of_inUse hfb huse
  refine ⟨halloc, hne, hdlo, hdhi, hcount, fun j => ?_⟩
  unfold addrOrTake at hrun
  by_cases h0 : din.indirect = 0
  · rw [if_pos (show din.addrs (Fin.last NDIRECT) = 0 from h0)] at hrun
    obtain ⟨rfl, rfl⟩ := Prod.mk.inj hrun
    have hzero : image (.ofNat freeblock) = .zero := hz _ (by rw [toNat_freeblock (by omega)])
    rw [if_pos h0, Dinode.indirect_setAddr_last, hzero, Block.word_zero]
  · rw [if_neg (show ¬ din.addrs (Fin.last NDIRECT) = 0 from h0)] at hrun
    obtain ⟨rfl, rfl⟩ := Prod.mk.inj hrun
    rw [if_neg h0, marked_of_ne (ne_bmapstart hdlo)]

theorem blockFor_indirect (ht : din.type ≠ 0) (hlo : nmeta ≤ freeblock)
    (hz : Zeroed image freeblock) (hd : ¬ fbn < NDIRECT) (hbn : fbn < MAXFILE)
    (hrun : blockFor image freeblock din fbn = (x, image', freeblock', din'))
    (hfb : freeblock + need (marked image freeblock) din fbn ≤ FSSIZE) :
    Took image freeblock din fbn x image' freeblock' din' := by
  have hi : fbn - NDIRECT < NINDIRECT := by simp only [MAXFILE] at hbn; omega
  have hge : NDIRECT ≤ fbn := by omega
  rw [blockFor, dif_neg hd] at hrun
  generalize htake : addrOrTake freeblock din (Fin.last NDIRECT) = r at hrun
  obtain ⟨freeblock₁, d⟩ := r
  have hneed : need (marked image freeblock) din fbn = (if din.blockAt (marked image freeblock) fbn = 0 then 1 else 0) +
      if din.indirect = 0 then 1 else 0 := by simp only [need, hge, true_and]
  have hcount : freeblock₁ = freeblock + if din.indirect = 0 then 1 else 0 := by
    have := addrOrTake_fst freeblock din (Fin.last NDIRECT)
    rwa [htake] at this
  have hind := addrOrTake_indirect h ht hlo hz htake (by omega)
  have hz₁ : Zeroed image freeblock₁ := hz.mono (by omega)
  have hdne := ne_bmapstart hind.lo
  have hat : din.blockAt (marked image freeblock) fbn = (image d.indirect).word (fbn - NDIRECT) := by
    rw [Dinode.blockAt, Slot.ofIndex_of_ge hd hi]
    exact hind.slot _
  rw [hat] at hneed
  simp only at hrun
  by_cases hw : (image d.indirect).word (fbn - NDIRECT) = 0
  · simp only [if_pos hw, Prod.mk.injEq] at hrun
    obtain ⟨rfl, rfl, rfl, rfl⟩ := hrun
    rw [if_pos hw] at hneed
    have hfb₁ : freeblock₁ < FSSIZE := by omega
    refine ⟨?_, ofNat_freeblock_ne_zero (by omega) hfb₁, fun b hb => ?_, by omega, fun b hb => ?_⟩
    · simp only [Fs.bmap, bmapLogged, dif_neg hd, if_pos hi, Logged.val_bind, addrOrAllocLogged_val, hind.alloc,
        if_neg hind.ne, marked_of_ne hdne, if_pos hw, ballocLogged_val, Logged.val_use,
        balloc_marked (show nmeta ≤ freeblock₁ by omega) hfb₁ hz₁, if_neg (ofNat_freeblock_ne_zero (by omega) hfb₁)]
      rw [marked, marked, Function.update_comm hdne.symm]
    · have : b ≠ d.indirect := by
        rintro rfl
        have := hind.hi
        omega
      rw [Function.update_of_ne this]
      exact hz₁ b (by omega)
    · have : b ≠ d.indirect := by
        rintro rfl
        exact absurd hind.lo (by omega)
      exact Function.update_of_ne this ..
  · simp only [if_neg hw, Prod.mk.injEq] at hrun
    obtain ⟨rfl, rfl, rfl, rfl⟩ := hrun
    rw [if_neg hw] at hneed
    refine ⟨?_, hw, hz₁, by omega, fun _ _ => rfl⟩
    simp only [Fs.bmap, bmapLogged, dif_neg hd, if_pos hi, Logged.val_bind, addrOrAllocLogged_val, hind.alloc,
      if_neg hind.ne, marked_of_ne hdne, if_neg hw, Logged.val_pure]

theorem blockFor_spec (ht : din.type ≠ 0) (hlo : nmeta ≤ freeblock) (hz : Zeroed image freeblock) (hbn : fbn < MAXFILE)
    (hrun : blockFor image freeblock din fbn = (x, image', freeblock', din'))
    (hfb : freeblock + need (marked image freeblock) din fbn ≤ FSSIZE) :
    Took image freeblock din fbn x image' freeblock' din' := by
  by_cases hd : fbn < NDIRECT
  · exact blockFor_direct hlo hz hd hrun hfb
  · exact blockFor_indirect h ht hlo hz hd hbn hrun hfb

end

/-! ## Appending -/

/-- The file has the blocks that a file of `size` bytes needs, and no others. -/
structure Exact (disk : Disk) (din : Dinode) (size : Nat) : Prop where
  blocks : ∀ bn, din.blockAt disk bn ≠ 0 ↔ bn * BSIZE < size
  indirect : din.indirect ≠ 0 ↔ NDIRECT * BSIZE < size

/-- Another block, which begins where the blocks that there are end, or has bytes already. -/
theorem Exact.bmap {disk disk' : Disk} (h : Exact disk din off)
    (hb : Bmapped sb inum disk din (off / BSIZE) x disk' din') (hx : x ≠ 0) (hlt : off < off')
    (hle : off' ≤ (off / BSIZE + 1) * BSIZE) : Exact disk' din' off' where
  blocks := by
    intro bn
    by_cases hbn : bn = off / BSIZE
    · rw [hbn, hb.addr hx]
      exact iff_of_true hx (by simp only [BSIZE]; omega)
    · have hsame : din'.blockAt disk' bn = din.blockAt disk bn := by
        rw [Dinode.blockAt, Dinode.blockAt]
        cases hs : Slot.ofIndex bn with
        | none => rfl
        | some s => exact hb.other s (Slot.ofIndex_ne_indirect hs) fun heq => hbn (Slot.ofIndex_inj hs heq)
      rw [hsame, h.blocks]
      simp only [BSIZE] at hbn hle ⊢
      omega
  indirect := by
    by_cases hd : off / BSIZE < NDIRECT
    · rw [hb.indirect hd, h.indirect]
      simp only [BSIZE, NDIRECT] at hd hle ⊢
      omega
    · have hne := (Dinode.indirect_ne_of_blockAt hd (by rwa [hb.addr hx])).2
      refine iff_of_true hne ?_
      simp only [BSIZE, NDIRECT] at hd ⊢
      omega

/-- What block `off / BSIZE` needs is what a file needs more with the bytes of the piece. -/
theorem Exact.need {disk : Disk} (h : Exact disk din off) (hlt : off < off')
    (hle : off' ≤ (off / BSIZE + 1) * BSIZE) : need disk din (off / BSIZE) + blocksFor off = blocksFor off' := by
  have hblock : din.blockAt disk (off / BSIZE) = 0 ↔ off ≤ off / BSIZE * BSIZE := by
    rw [← not_iff_not, Nat.not_le]; exact h.blocks _
  have hind : din.indirect = 0 ↔ off ≤ NDIRECT * BSIZE := by
    rw [← not_iff_not, Nat.not_le]; exact h.indirect
  simp only [Mkfs.need, blocksFor, hblock, hind]
  split <;> split <;> split <;> split <;> (simp only [BSIZE, NDIRECT] at *; omega)

theorem blocksFor_mono {m n : Nat} (h : m ≤ n) : blocksFor m ≤ blocksFor n := by
  simp only [blocksFor]
  split <;> split <;> (simp only [BSIZE, NDIRECT] at *; omega)

/-- A write of data to a block below `freeblock`. -/
theorem marked_update (hx : x ≠ sb.bmapstart) (blk : Block) :
    marked (Function.update image x blk) freeblock = Function.update (marked image freeblock) x blk := by
  rw [marked, marked, Function.update_comm hx]

/-- The state of both loops before a piece at `off`: the inode has the blocks for the bytes before it. -/
structure Appending (inum : UInt32) (image : Disk) (freeblock : Nat) (din : Dinode) (off : Nat) : Prop where
  pending : sb.Pending (marked image freeblock) inum din
  type : din.type ≠ 0
  lo : nmeta ≤ freeblock
  zeroed : Zeroed image freeblock
  exact : Exact (marked image freeblock) din off

/-- One piece, from `off` to `off'` in one block, for which a block is found and written. -/
theorem Appending.piece (h : Appending inum image freeblock din off) (hlt : off < off')
    (hle : off' ≤ (off / BSIZE + 1) * BSIZE) (hmax : off < MAXFILE * BSIZE)
    (hfit : freeblock + blocksFor off' ≤ FSSIZE + blocksFor off) {image₁ : Disk} {freeblock₁ : Nat}
    {din₁ : Dinode} (hrun : blockFor image freeblock din (off / BSIZE) = (x, image₁, freeblock₁, din₁)) (blk : Block) :
    Took image freeblock din (off / BSIZE) x image₁ freeblock₁ din₁ ∧ nmeta ≤ x.toNat ∧
      Appending inum (Function.update image₁ x blk) freeblock₁ din₁ off' ∧
      freeblock₁ + blocksFor off = freeblock + blocksFor off' := by
  obtain ⟨hpending, ht, hlo, hz, hexact⟩ := h
  have hbn : off / BSIZE < MAXFILE := (Nat.div_lt_iff_lt_mul (by decide)).mpr hmax
  have hneed := hexact.need hlt hle
  have htook := blockFor_spec hpending ht hlo hz hbn hrun (by omega)
  have hcount := htook.count
  obtain ⟨addr, disk₁, ip₁, heq, hb⟩ := bmap_spec sb_sane hpending ht hbn
  rw [htook.bmap] at heq
  obtain ⟨rfl, rfl, rfl⟩ : _ ∧ _ ∧ _ := by simpa only [Except.ok.injEq, Prod.mk.injEq] using heq
  have ht₁ : din₁.type ≠ 0 := hb.type ▸ ht
  have hat := hb.addr htook.ne
  have hne : din₁.blockAt (marked image₁ freeblock₁) (off / BSIZE) ≠ 0 := by rw [hat]; exact htook.ne
  have hfile := hb.pending.fileBlock sb_sane ht₁ hne
  rw [hat] at hfile
  obtain ⟨hxlo, hxhi⟩ := lt_of_inUse (by omega) hfile.inUse
  have hx := ne_bmapstart hxlo
  have hw := Grows.writeData sb_sane hb.pending ht₁ hne blk
  rw [hat, ← marked_update hx] at hw
  have hexact₁ := hexact.bmap hb htook.ne hlt hle
  have hslot (s : Slot) : din₁.slot (marked (Function.update image₁ x blk) freeblock₁) s =
      din₁.slot (marked image₁ freeblock₁) s := by
    rw [marked_update hx]
    exact hfile.slot hpending.lt ht₁ blk s
  refine ⟨htook, hxlo, ⟨hw.pending, ht₁, by omega, fun b hb => ?_, fun bn => ?_, hexact₁.indirect⟩, by omega⟩
  · have hbx : b ≠ x := by rintro rfl; omega
    rw [Function.update_of_ne hbx]
    exact htook.zeroed b hb
  · rw [Dinode.blockAt_congr hslot]
    exact hexact₁.blocks bn

/-- What both loops do, with the bytes of `data` from `tot` on at offset `off`. -/
structure Appended (data : List UInt8) (fuel tot off : Nat) (image : Disk) (freeblock : Nat) (din : Dinode) (image' : Disk)
    (freeblock' : Nat) (din' : Dinode) : Prop where
  append : appendLoop fuel (data.drop tot) off image freeblock din =
    .ok (off + (data.length - tot), image', freeblock', din')
  write : writeLoop sb (copyFrom data) data.length fuel tot off (marked image freeblock) din =
    .ok (data.length, off + (data.length - tot), marked image' freeblock', din')
  zeroed : Zeroed image' freeblock'
  exact : Exact (marked image' freeblock') din' (off + (data.length - tot))
  count : freeblock' + blocksFor off = freeblock + blocksFor (off + (data.length - tot))
  low : ∀ b : UInt32, b.toNat < nmeta → image' b = image b

theorem appendLoop_spec (data : List UInt8) :
    ∀ (fuel tot off : Nat) (image : Disk) (freeblock : Nat) (din : Dinode), Appending inum image freeblock din off →
      tot ≤ data.length → data.length - tot < fuel → off + (data.length - tot) ≤ MAXFILE * BSIZE →
      freeblock + blocksFor (off + (data.length - tot)) ≤ FSSIZE + blocksFor off →
      ∃ image' freeblock' din', Appended data fuel tot off image freeblock din image' freeblock' din' := by
  intro fuel
  induction fuel with
  | zero => exact fun tot off image freeblock din _ _ hfuel => absurd hfuel (Nat.not_lt_zero _)
  | succ fuel ih =>
      intro tot off image freeblock din h htot hfuel hmax hfit
      by_cases hend : tot = data.length
      · have hsub : data.length - tot = 0 := by omega
        refine ⟨image, freeblock, din, ?_, ?_, h.zeroed, by rw [hsub]; exact h.exact, by rw [hsub]; rfl, fun _ _ => rfl⟩
        · simp [appendLoop, hend]
        · simp [writeLoop, writeLoopLogged, Except.map, hend]
      · generalize hm : min (data.length - tot) (BSIZE - off % BSIZE) = m
        have hmod : off % BSIZE < BSIZE := Nat.mod_lt _ (by decide)
        have hpiece : off + m ≤ (off / BSIZE + 1) * BSIZE := hm ▸ piece_le data.length tot off
        have hmono : blocksFor (off + m) ≤ blocksFor (off + (data.length - tot)) := blocksFor_mono (by omega)
        generalize hrun : blockFor image freeblock din (off / BSIZE) = r
        obtain ⟨x, image₁, freeblock₁, din₁⟩ := r
        generalize hblk : (image₁ x).store (off % BSIZE) ((data.drop tot).take m) = blk
        obtain ⟨htook, hxlo, hnext, hcount⟩ := h.piece (show off < off + m by omega) hpiece (by omega) (by omega) hrun blk
        have hx := ne_bmapstart hxlo
        have hbn : off / BSIZE < MAXFILE := (Nat.div_lt_iff_lt_mul (by decide)).mpr (by omega)
        have hsplit : off + m + (data.length - (tot + m)) = off + (data.length - tot) := by omega
        obtain ⟨image', freeblock', din', hrest⟩ := ih (tot + m) (off + m) _ freeblock₁ din₁ hnext (by omega) (by omega)
          (by omega) (by rw [hsplit]; omega)
        have hrest_count := hrest.count
        refine ⟨image', freeblock', din', ?_, ?_, hrest.zeroed, hsplit ▸ hrest.exact, by rw [hsplit] at hrest_count; omega,
          fun b hb => ?_⟩
        · have hn1 : min (data.drop tot).length ((off / BSIZE + 1) * BSIZE - off) = m := by
            rw [List.length_drop, ← hm]
            congr 1
            simp only [BSIZE]; omega
          have hoff : off - off / BSIZE * BSIZE = off % BSIZE := by simp only [BSIZE]; omega
          have hlen : 0 < (data.drop tot).length := by rw [List.length_drop]; omega
          have := hrest.append
          rw [hsplit] at this
          simp only [appendLoop, if_pos hlen, if_pos hbn, hrun, hn1, hoff, hblk, List.drop_drop]
          rw [← this]
        · have := hrest.write
          rw [hsplit, marked_update hx] at this
          have hlt : tot < data.length := by omega
          simp only [writeLoop, writeLoopLogged, if_pos hlt, Logged.andThen_ok htook.bmap, if_neg htook.ne, copyFrom, hm,
            List.take_take, Nat.min_self, if_true, marked_of_ne hx, hblk]
          exact this
        · have : b ≠ x := by rintro rfl; omega
          rw [hrest.low b hb, Function.update_of_ne this, htook.low b hb]

end Xv6Net.Fs.Mkfs
