import Xv6Net.Fs.Lemmas.Contents

/-!
# What is logged and what is not

Every block that `writei` changes is logged, but for the one in which `either_copyin` failed.
-/

namespace Xv6Net.Fs

open Lib

variable {sb : Superblock} {disk disk' : Disk} {inum : UInt32} {ip ip' : Dinode}

/-! ## What changes is logged -/

/-- Blocks that differ from before are logged. -/
def LogsChanges (disk : Disk) (log : List UInt32) (disk' : Disk) : Prop := ∀ b, disk' b ≠ disk b → b ∈ log

theorem LogsChanges.refl (disk : Disk) (log : List UInt32) : LogsChanges disk log disk := fun _ hne => absurd rfl hne

theorem LogsChanges.update {log : List UInt32} (h : LogsChanges disk log disk') (b : UInt32) (data : Block) :
    LogsChanges disk (log ++ [b]) (Function.update disk' b data) := by
  intro c hc
  by_cases hcb : c = b
  · subst hcb
    exact List.mem_append_right _ List.mem_cons_self
  · rw [Function.update_of_ne hcb] at hc
    exact List.mem_append_left _ (h c hc)

theorem LogsChanges.trans {disk'' : Disk} {log log' : List UInt32} (h : LogsChanges disk log disk')
    (h' : LogsChanges disk' log' disk'') : LogsChanges disk (log ++ log') disk'' := by
  intro b hb
  by_cases hne : disk'' b = disk' b
  · exact List.mem_append_left _ (h b (by rwa [← hne]))
  · exact List.mem_append_right _ (h' b hne)

theorem ballocLogged_logs (sb : Superblock) (disk : Disk) :
    LogsChanges disk (ballocLogged sb disk).log (balloc sb disk).2 ∧
      ((balloc sb disk).1 ≠ 0 → (balloc sb disk).1 ∈ (ballocLogged sb disk).log) := by
  rw [balloc, ballocLogged]
  generalize (List.range ((sb.size.toNat + BPB - 1) / BPB)).findSome? (fun k =>
    (freeBit sb disk (k * BPB)).map (k * BPB, ·)) = found
  cases found with
  | none => exact ⟨.refl _ _, fun h => absurd rfl h⟩
  | some r =>
      obtain ⟨b, bi⟩ := r
      exact ⟨((LogsChanges.refl disk []).update _ _).update _ _, fun _ => by simp⟩

theorem addrOrAllocLogged_logs (sb : Superblock) (disk : Disk) (ip : Dinode) (i : Fin (NDIRECT + 1)) :
    LogsChanges disk (addrOrAllocLogged sb disk ip i).log (addrOrAlloc sb disk ip i).2.1 ∧
      (ip.addrs i = 0 → (addrOrAlloc sb disk ip i).1 ≠ 0 →
        (addrOrAlloc sb disk ip i).1 ∈ (addrOrAllocLogged sb disk ip i).log) := by
  obtain ⟨hlogs, hnew⟩ := ballocLogged_logs sb disk
  rw [addrOrAlloc, addrOrAllocLogged]
  split
  · rw [Logged.log_bind, Logged.val_bind, ballocLogged_val]
    generalize balloc sb disk = r at hlogs hnew ⊢
    obtain ⟨addr, disk₁⟩ := r
    dsimp only at hlogs hnew ⊢
    split
    · rw [Logged.log_pure, List.append_nil]
      exact ⟨hlogs, fun _ hne => absurd rfl hne⟩
    · rename_i haddr
      rw [Logged.log_pure, List.append_nil]
      exact ⟨hlogs, fun _ _ => hnew haddr⟩
  · rename_i hne
    exact ⟨.refl _ _, fun h0 => absurd h0 hne⟩

theorem balloc_zero (sb : Superblock) (disk : Disk) (h : (balloc sb disk).1 ≠ 0) :
    (balloc sb disk).2 (balloc sb disk).1 = .zero := by
  rw [balloc, ballocLogged] at h ⊢
  generalize (List.range ((sb.size.toNat + BPB - 1) / BPB)).findSome? (fun k =>
    (freeBit sb disk (k * BPB)).map (k * BPB, ·)) = found at h ⊢
  cases found with
  | none => exact absurd rfl h
  | some r => exact Function.update_self ..

/-- The address was there, or there is none, or it is that of a block of zeros. -/
theorem addrOrAlloc_cases (sb : Superblock) (disk : Disk) (ip : Dinode) (i : Fin (NDIRECT + 1)) :
    (ip.addrs i ≠ 0 ∧ addrOrAlloc sb disk ip i = (ip.addrs i, disk, ip)) ∨ (addrOrAlloc sb disk ip i).1 = 0 ∨
      (addrOrAlloc sb disk ip i).2.1 (addrOrAlloc sb disk ip i).1 = .zero := by
  have hzero := balloc_zero sb disk
  rw [addrOrAlloc, addrOrAllocLogged]
  split
  · rw [Logged.val_bind, ballocLogged_val]
    generalize balloc sb disk = r at hzero ⊢
    obtain ⟨addr, disk₁⟩ := r
    dsimp only at hzero ⊢
    split
    · exact .inr (.inl rfl)
    · rename_i h0
      exact .inr (.inr (hzero h0))
  · rename_i h0
    exact .inl ⟨h0, rfl⟩

/-- Also the block that `bmap` returns, if it is new. -/
theorem bmapLogged_logs {bn : Nat} {addr : UInt32} (h : bmap sb disk ip bn = .ok (addr, disk', ip')) :
    LogsChanges disk (bmapLogged sb disk ip bn).log disk' ∧
      (ip.blockAt disk bn = 0 → addr ≠ 0 → addr ∈ (bmapLogged sb disk ip bn).log) := by
  rw [bmap, bmapLogged] at h
  rw [bmapLogged]
  split at h
  · rename_i hd
    obtain ⟨hlogs, hnew⟩ := addrOrAllocLogged_logs sb disk ip ⟨bn, Nat.lt_succ_of_lt hd⟩
    rw [dif_pos hd, Logged.log_bind, Logged.log_pure, List.append_nil]
    have hblock : ip.blockAt disk bn = ip.addrs ⟨bn, Nat.lt_succ_of_lt hd⟩ := by
      rw [Dinode.blockAt, Slot.ofIndex_of_lt hd]; rfl
    have haddr : addrOrAlloc sb disk ip ⟨bn, Nat.lt_succ_of_lt hd⟩ = (addr, disk', ip') := Except.ok.inj h
    rw [haddr] at hlogs hnew
    rw [hblock]
    exact ⟨hlogs, hnew⟩
  · rename_i hd
    rw [dif_neg hd]
    dsimp only at h ⊢
    split at h
    · rename_i hi
      obtain ⟨hlogs, -⟩ := addrOrAllocLogged_logs sb disk ip (Fin.last NDIRECT)
      have hcases := addrOrAlloc_cases sb disk ip (Fin.last NDIRECT)
      rw [if_pos hi, Logged.log_bind, addrOrAllocLogged_val]
      rw [Logged.val_bind, addrOrAllocLogged_val] at h
      generalize addrOrAlloc sb disk ip (Fin.last NDIRECT) = r at hlogs h hcases ⊢
      obtain ⟨bp, disk₁, ip₁⟩ := r
      dsimp only at hlogs h hcases ⊢
      split at h
      · rename_i h0
        cases h
        rw [if_pos h0, Logged.log_pure, List.append_nil]
        exact ⟨hlogs, fun _ hne => absurd rfl hne⟩
      · rename_i h0
        rw [if_neg h0]
        split at h
        · rename_i hw
          obtain ⟨hlogs₂, hnew⟩ := ballocLogged_logs sb disk₁
          rw [if_pos hw, Logged.log_bind, ballocLogged_val]
          rw [Logged.val_bind, ballocLogged_val] at h
          generalize balloc sb disk₁ = r at hlogs₂ hnew h ⊢
          obtain ⟨addr', disk₂⟩ := r
          dsimp only at hlogs₂ hnew h ⊢
          split at h
          · rename_i ha
            cases h
            rw [if_pos ha, Logged.log_pure, List.append_nil]
            exact ⟨hlogs.trans hlogs₂, fun _ hne => absurd rfl hne⟩
          · rename_i ha
            cases h
            rw [if_neg ha, Logged.log_use, ← List.append_assoc]
            refine ⟨(hlogs.trans hlogs₂).update _ _, fun _ _ => ?_⟩
            exact List.mem_append_left _ (List.mem_append_right _ (hnew ha))
        · rename_i hw
          cases h
          rw [if_neg hw, Logged.log_pure, List.append_nil]
          refine ⟨hlogs, fun hnone _ => absurd ?_ hw⟩
          rcases hcases with ⟨hind, he⟩ | h0' | hzero
          · -- the indirect block is the old one
            cases he
            have hindirect : ip.indirect ≠ 0 := hind
            rw [Dinode.blockAt, Slot.ofIndex_of_ge hd hi, Option.map_some, Option.getD_some, Dinode.slot,
              if_neg hindirect] at hnone
            exact hnone
          · exact absurd h0' h0
          · rw [hzero, Block.word_zero]
    · cases h

/-! ## Where the blocks lie that are logged -/

theorem ballocLogged_area (hsb : sb.Sane) {ref : UInt32 × Slot → UInt32} (h : sb.Accounts disk ref) :
    (ballocLogged sb disk).All sb.InFs := by
  rw [ballocLogged]
  cases hf : (List.range ((sb.size.toNat + BPB - 1) / BPB)).findSome? fun k =>
    (freeBit sb disk (k * BPB)).map (k * BPB, ·) with
  | none => exact Logged.all_pure _
  | some r =>
      obtain ⟨b, bi⟩ := r
      obtain ⟨hlt, -, hblock, hfree⟩ := found_spec hsb hf
      simp only [Logged.all_bind, Logged.all_use]
      rw [hblock]
      exact ⟨hsb.inFs_of_isBitmap (hsb.isBitmap_bblock hlt).2, hsb.inFs_of_isData (h.isData_of_free hlt hfree)⟩

theorem addrOrAllocLogged_area (hsb : sb.Sane) (h : sb.Pending disk inum ip) (i : Fin (NDIRECT + 1)) :
    (addrOrAllocLogged sb disk ip i).All sb.InFs := by
  rw [addrOrAllocLogged]
  split
  · rw [Logged.all_bind, ballocLogged_val]
    refine ⟨ballocLogged_area hsb h.accounts, ?_⟩
    dsimp only
    split <;> exact Logged.all_pure _
  · exact Logged.all_pure _

theorem bmapLogged_area (hsb : sb.Sane) (h : sb.Pending disk inum ip) (ht : ip.type ≠ 0) (bn : Nat) :
    (bmapLogged sb disk ip bn).All sb.InFs := by
  rw [bmapLogged]
  split
  · rw [Logged.all_bind]
    exact ⟨addrOrAllocLogged_area hsb h _, Logged.all_pure _⟩
  · dsimp only
    split
    · rw [Logged.all_bind, addrOrAllocLogged_val]
      refine ⟨addrOrAllocLogged_area hsb h _, ?_⟩
      obtain ⟨bp, disk₁, ip₁, heq, hmaps, hbp, -⟩ := addrOrAlloc_spec hsb h ht (Fin.last NDIRECT)
      rw [heq]
      dsimp only
      split
      · exact Logged.all_pure _
      · rename_i h0
        have hdata : sb.IsData bp := by
          have := hmaps.pending.inUse_slot (hmaps.type ▸ ht) (s := .indirect)
          rw [Dinode.slot, Dinode.indirect, hbp] at this
          exact (this h0).1
        split
        · rw [Logged.all_bind, ballocLogged_val]
          refine ⟨ballocLogged_area hsb hmaps.pending.accounts, ?_⟩
          split
          · exact Logged.all_pure _
          · rw [Logged.all_use]
            exact hsb.inFs_of_isData hdata
        · exact Logged.all_pure _
    · exact Logged.all_pure _

end Xv6Net.Fs
