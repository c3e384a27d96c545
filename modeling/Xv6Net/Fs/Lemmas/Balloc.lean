import Xv6Net.Fs.Inode
import Xv6Net.Fs.Lemmas.Layout

/-! What `balloc` and `bfree` do to the account of blocks, whatever the addresses are taken from. -/

namespace Xv6Net.Fs

open Lib

namespace Superblock

variable {sb : Superblock} {disk disk' : Disk} {b c : UInt32} {ref : UInt32 × Slot → UInt32}

/-- Blocks outside of the bitmap do not matter for the account. -/
theorem Accounts.congr_disk (h : sb.Accounts disk ref) (hsb : sb.Sane)
    (hsame : ∀ c, sb.IsBitmap c → disk' c = disk c) : sb.Accounts disk' ref := by
  have hbit (c : UInt32) (hc : c.toNat < sb.size.toNat) : sb.bit disk' c = sb.bit disk c :=
    bit_congr (hsame _ (hsb.isBitmap_bblock hc).2)
  have hin (c : UInt32) : sb.InUse disk' c ↔ sb.InUse disk c :=
    and_congr_right fun hd => by rw [hbit c hd.2]
  refine ⟨⟨fun p hp => (hin _).mpr (h.owns.inUse p hp), h.owns.inj, fun a ha hu => h.owns.held a ha ((hin a).mp hu)⟩, ?_⟩
  intro c hc
  rw [hbit c (by simp only [datastart] at hc; omega)]
  exact h.reserved c hc

/-- The block of the bitmap for block `b`, with its bit set. -/
def setBit (sb : Superblock) (disk : Disk) (b : UInt32) : Disk :=
  Function.update disk (sb.bblock b) ((disk (sb.bblock b)).setBit (b.toNat % BPB))

theorem Sane.bit_setBit (h : sb.Sane) (hb : b.toNat < sb.size.toNat) (hc : c.toNat < sb.size.toNat) :
    sb.bit (sb.setBit disk b) c = (decide (c = b) || sb.bit disk c) := by
  have hmod : b.toNat % BPB < BPB := Nat.mod_lt _ (by decide)
  rw [setBit, h.bit_update hb hc fun j hj => by simp [Block.bit_setBit hmod, hj]]
  split
  · rename_i hcb
    simp [Block.bit_setBit hmod, hcb]
  · rename_i hcb
    simp [hcb]

theorem Sane.bit_clearBit (h : sb.Sane) (hb : b.toNat < sb.size.toNat) (hc : c.toNat < sb.size.toNat) :
    sb.bit (Function.update disk (sb.bblock b) ((disk (sb.bblock b)).clearBit (b.toNat % BPB))) c =
      (!decide (c = b) && sb.bit disk c) := by
  have hmod : b.toNat % BPB < BPB := Nat.mod_lt _ (by decide)
  rw [h.bit_update hb hc fun j hj => by simp [Block.bit_clearBit hmod, hj]]
  split
  · rename_i hcb
    simp [Block.bit_clearBit hmod, hcb]
  · rename_i hcb
    simp [hcb]

/-- Marking a data block that was free, for a place that was empty. -/
theorem Accounts.setBit (h : sb.Accounts disk ref) (hsb : sb.Sane) (hb : sb.IsData b) (hfree : ¬ sb.bit disk b)
    {p : UInt32 × Slot} (hp : ref p = 0) : sb.Accounts (sb.setBit disk b) (Function.update ref p b) where
  owns := by
    refine h.owns.take hp (fun hu => hfree hu.2) fun c => ?_
    by_cases hc : sb.IsData c
    · simp [InUse, hc, hsb.bit_setBit hb.2 hc.2]
    · have : c ≠ b := by rintro rfl; exact hc hb
      simp [InUse, hc, this]
  reserved := by
    intro c hc
    rw [hsb.bit_setBit hb.2 (by simp only [datastart] at hc; omega), h.reserved c hc, Bool.or_true]

end Superblock

variable {sb : Superblock} {disk disk' : Disk} {b c : UInt32} {ref : UInt32 × Slot → UInt32}

/-- What a place holds can be freed. -/
theorem bfree_spec (hsb : sb.Sane) (h : sb.Accounts disk ref) {p : UInt32 × Slot} (hp : ref p ≠ 0) :
    ∃ disk', bfree sb disk (ref p) = .ok disk' ∧ sb.Accounts disk' (Function.update ref p 0) ∧
      ∀ c, ¬ sb.IsBitmap c → disk' c = disk c := by
  obtain ⟨hdata, hbit⟩ := h.owns.inUse p hp
  refine ⟨_, if_pos hbit, ⟨?_, ?_⟩, ?_⟩
  · refine h.owns.drop p fun c => ?_
    by_cases hc : sb.IsData c
    · simp [Superblock.InUse, hc, hsb.bit_clearBit hdata.2 hc.2]
    · simp [Superblock.InUse, hc]
  · intro c hc
    have hne : c ≠ ref p := by
      rintro rfl
      exact absurd hdata.1 (by omega)
    rw [hsb.bit_clearBit hdata.2 (by simp only [Superblock.datastart] at hc; omega), h.reserved c hc]
    simp [hne]
  · intro c hc
    have hne : c ≠ sb.bblock (ref p) := by
      rintro rfl
      exact hc (hsb.isBitmap_bblock hdata.2).2
    exact Function.update_of_ne hne ..

/-- What `balloc` returned and did. -/
structure Fresh (sb : Superblock) (disk : Disk) (ref : UInt32 × Slot → UInt32) (b : UInt32) (disk' : Disk) : Prop where
  isData : sb.IsData b
  free : ¬ sb.InUse disk b
  zero : disk' b = .zero
  same : ∀ c, c ≠ b → ¬ sb.IsBitmap c → disk' c = disk c
  accounts : ∀ p, ref p = 0 → sb.Accounts disk' (Function.update ref p b)

theorem freeBit_eq_some {b bi : Nat} (h : freeBit sb disk b = some bi) :
    bi < BPB ∧ b + bi < sb.size.toNat ∧ ¬ (disk (sb.bblock (.ofNat b))).bit bi := by
  have hmem := List.mem_of_find?_eq_some h
  have hprop := List.find?_some h
  simp only [Bool.and_eq_true, decide_eq_true_eq, Bool.not_eq_true'] at hprop
  exact ⟨List.mem_range.mp hmem, hprop.1, by simp [hprop.2]⟩

theorem bit_of_freeBit_none {b bi : Nat} (h : freeBit sb disk b = none) (hbi : bi < BPB) (hin : b + bi < sb.size.toNat) :
    (disk (sb.bblock (.ofNat b))).bit bi := by
  have hnone := List.find?_eq_none.mp h bi (List.mem_range.mpr hbi)
  simpa [hin] using hnone

/-- No bit is found. -/
theorem full_of_none (hsb : sb.Sane) (h : (List.range ((sb.size.toNat + BPB - 1) / BPB)).findSome? (fun k =>
    (freeBit sb disk (k * BPB)).map (k * BPB, ·)) = none) : sb.Full disk := by
  intro c hc
  have hsize := hsb.size
  have hpos : 0 < BPB := by decide
  have hlt : c.toNat < sb.size.toNat := hc.2
  have hsplit : c.toNat / BPB * BPB + c.toNat % BPB = c.toNat := Nat.div_add_mod' ..
  have hk : c.toNat / BPB < (sb.size.toNat + BPB - 1) / BPB := by
    simp only [BPB, BSIZE]
    omega
  have hnone := List.findSome?_eq_none_iff.mp h _ (List.mem_range.mpr hk)
  have hbit := bit_of_freeBit_none (Option.map_eq_none_iff.mp hnone) (Nat.mod_lt c.toNat hpos) (by omega)
  have hblock : sb.bblock (.ofNat (c.toNat / BPB * BPB)) = sb.bblock c := by
    rw [Superblock.bblock, Superblock.bblock, UInt32.toNat_ofNat', Nat.mod_eq_of_lt (by omega), Nat.mul_div_cancel _ hpos]
  rw [Superblock.bit, ← hblock]
  exact hbit

/-- The bit that is found is the one of the block that is returned. -/
theorem found_spec (hsb : sb.Sane) {b bi : Nat} (h : (List.range ((sb.size.toNat + BPB - 1) / BPB)).findSome? (fun k =>
    (freeBit sb disk (k * BPB)).map (k * BPB, ·)) = some (b, bi)) :
    (UInt32.ofNat (b + bi)).toNat < sb.size.toNat ∧ (UInt32.ofNat (b + bi)).toNat % BPB = bi ∧
      sb.bblock (.ofNat b) = sb.bblock (.ofNat (b + bi)) ∧ ¬ sb.bit disk (.ofNat (b + bi)) := by
  have hsize := hsb.size
  obtain ⟨k, -, hk⟩ := List.exists_of_findSome?_eq_some h
  obtain ⟨bi', hbi, heq⟩ := Option.map_eq_some_iff.mp hk
  obtain ⟨rfl, rfl⟩ := Prod.mk.inj heq
  obtain ⟨hlt, hin, hfree⟩ := freeBit_eq_some hbi
  have hpos : 0 < BPB := by decide
  have hnat : (UInt32.ofNat (k * BPB + bi')).toNat = k * BPB + bi' := by
    rw [UInt32.toNat_ofNat']; omega
  have hnat' : (UInt32.ofNat (k * BPB)).toNat = k * BPB := by
    rw [UInt32.toNat_ofNat']; omega
  have hmod : (UInt32.ofNat (k * BPB + bi')).toNat % BPB = bi' := by
    rw [hnat, Nat.add_comm, Nat.add_mul_mod_self_right, Nat.mod_eq_of_lt hlt]
  have hblock : sb.bblock (.ofNat (k * BPB)) = sb.bblock (.ofNat (k * BPB + bi')) := by
    simp only [Superblock.bblock, hnat, hnat']
    rw [Nat.mul_div_cancel _ hpos, Nat.add_comm (k * BPB), Nat.add_mul_div_right _ _ hpos, Nat.div_eq_of_lt hlt,
      Nat.zero_add]
  refine ⟨by omega, hmod, hblock, ?_⟩
  rw [Superblock.bit, hmod, ← hblock]
  exact hfree

theorem ballocLogged_val (sb : Superblock) (disk : Disk) : (ballocLogged sb disk).val = balloc sb disk := rfl

theorem balloc_eq (hsb : sb.Sane) (disk : Disk) :
    (balloc sb disk = (0, disk) ∧ sb.Full disk) ∨ ∃ b : UInt32, b.toNat < sb.size.toNat ∧ ¬ sb.bit disk b ∧
      balloc sb disk = (b, bzero (sb.setBit disk b) b) := by
  rw [balloc, ballocLogged]
  cases hf : (List.range ((sb.size.toNat + BPB - 1) / BPB)).findSome? fun k =>
    (freeBit sb disk (k * BPB)).map (k * BPB, ·) with
  | none => exact .inl ⟨rfl, full_of_none hsb hf⟩
  | some r =>
      obtain ⟨b, bi⟩ := r
      obtain ⟨hlt, hmod, hblock, hfree⟩ := found_spec hsb hf
      refine .inr ⟨.ofNat (b + bi), hlt, hfree, ?_⟩
      simp only [Logged.val_bind, Logged.val_use, Superblock.setBit, hmod, ← hblock]

theorem Superblock.Accounts.isData_of_free (h : sb.Accounts disk ref) (hlt : b.toNat < sb.size.toNat)
    (hfree : ¬ sb.bit disk b) : sb.IsData b :=
  ⟨Nat.le_of_not_lt fun hres => hfree (h.reserved b hres), hlt⟩

theorem balloc_spec (hsb : sb.Sane) (h : sb.Accounts disk ref) :
    (balloc sb disk = (0, disk) ∧ sb.Full disk) ∨
      ∃ b disk', balloc sb disk = (b, disk') ∧ b ≠ 0 ∧ Fresh sb disk ref b disk' := by
  rcases balloc_eq hsb disk with h0 | ⟨b, hlt, hfree, heq⟩
  · exact .inl h0
  · have hdata : sb.IsData b := h.isData_of_free hlt hfree
    have hzero (c : UInt32) (hc : c ≠ b) : bzero (sb.setBit disk b) b c = sb.setBit disk b c := Function.update_of_ne hc ..
    refine .inr ⟨b, _, heq, hsb.isData_ne_zero hdata, hdata, fun hu => hfree hu.2, Function.update_self .., ?_, ?_⟩
    · intro c hc hmap
      have : c ≠ sb.bblock b := by
        rintro rfl
        exact hmap (hsb.isBitmap_bblock hlt).2
      rw [hzero c hc, Superblock.setBit, Function.update_of_ne this]
    · intro p hp
      refine (h.setBit hsb hdata hfree hp).congr_disk hsb fun c hc => hzero c ?_
      rintro rfl
      exact hdata.not_isBitmap hc

end Xv6Net.Fs
