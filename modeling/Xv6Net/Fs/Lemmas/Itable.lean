import Xv6Net.Fs.Lemmas.Trunc
import Xv6Net.Lib.Ensures

/-! The file system stays well formed over calls, and the inode table agrees with it. -/

namespace Xv6Net.Fs

open Lib

variable {sb : Superblock}

namespace InodeSys

/-- Inodes in the table that are valid are as on the disk, and none is there twice. -/
structure Inv (sb : Superblock) (s : InodeSys) : Prop where
  wellFormed : sb.WellFormed s.disk
  lt : ∀ ip, 0 < (s.itable ip).ref → (s.itable ip).inum < sb.ninodes
  unique : ∀ i j, i ≠ j → 0 < (s.itable i).ref → 0 < (s.itable j).ref → (s.itable i).inum ≠ (s.itable j).inum
  cached : ∀ ip, 0 < (s.itable ip).ref → (s.itable ip).valid →
    (s.itable ip).din = sb.dinodes s.disk (s.itable ip).inum ∧ (s.itable ip).din.type ≠ 0

/-- The panics for a table that is full, an inode without a reference, and an inode that is not allocated. -/
def TablePanic (e : FsStop) : Prop := e = .igetNoInodes ∨ e = .ilock ∨ e = .ilockNoType

instance (e : FsStop) : Decidable (TablePanic e) := inferInstanceAs (Decidable (_ ∨ _))

variable {s : InodeSys} {ip : Fin NINODE}

theorem Inv.of_unused (hwf : sb.WellFormed s.disk) (h : ∀ ip, (s.itable ip).ref = 0) : s.Inv sb :=
  ⟨hwf, fun ip hr => by simp [h] at hr, fun i _ _ hr => by simp [h] at hr, fun ip hr => by simp [h] at hr⟩

section

variable (h : s.Inv sb)
include h

/-- Entry `ip` becomes `x`, and the disk changes in inode `x.inum` only, which no other entry has. -/
theorem Inv.change {disk' : Disk} {x : Inode} (hwf : sb.WellFormed disk')
    (hdisk : ∀ k < sb.ninodes, k ≠ x.inum → sb.dinodes disk' k = sb.dinodes s.disk k)
    (hother : ∀ j, j ≠ ip → 0 < (s.itable j).ref → (s.itable j).inum ≠ x.inum) (hlt : 0 < x.ref → x.inum < sb.ninodes)
    (hvalid : 0 < x.ref → x.valid → x.din = sb.dinodes disk' x.inum ∧ x.din.type ≠ 0) :
    Inv sb { s.setInode ip x with disk := disk' } where
  wellFormed := hwf
  lt := by
    intro i hi
    by_cases hip : i = ip
    · subst hip
      simp only [setInode, Function.update_self] at hi ⊢
      exact hlt hi
    · simp only [setInode, Function.update_of_ne hip] at hi ⊢
      exact h.lt i hi
  unique := by
    intro i j hij hi hj
    by_cases hip : i = ip <;> by_cases hjp : j = ip
    · exact absurd (hip.trans hjp.symm) hij
    · subst hip
      simp only [setInode, Function.update_self, Function.update_of_ne hjp] at hj ⊢
      exact (hother j hjp hj).symm
    · subst hjp
      simp only [setInode, Function.update_self, Function.update_of_ne hip] at hi ⊢
      exact hother i hip hi
    · simp only [setInode, Function.update_of_ne hip, Function.update_of_ne hjp] at hi hj ⊢
      exact h.unique i j hij hi hj
  cached := by
    intro i hi hv
    by_cases hip : i = ip
    · subst hip
      simp only [setInode, Function.update_self] at hi hv ⊢
      exact hvalid hi hv
    · simp only [setInode, Function.update_of_ne hip] at hi hv ⊢
      obtain ⟨hdin, ht⟩ := h.cached i hi hv
      exact ⟨hdin.trans (hdisk _ (h.lt i hi) (hother i hip hi)).symm, ht⟩

/-- Only the reference count changes. -/
theorem Inv.setRef (hip : 0 < (s.itable ip).ref) (n : Nat) :
    Inv sb (s.setInode ip { s.itable ip with ref := n }) :=
  h.change h.wellFormed (fun _ _ _ => rfl) (fun j hj hr => h.unique j ip hj hr hip) (fun _ => h.lt ip hip)
    fun _ hv => h.cached ip hip hv

theorem Inv.iget {inum : UInt32} (hi : inum < sb.ninodes) :
    Ends (s.iget inum) TablePanic fun r => r.2.Inv sb := by
  unfold InodeSys.iget
  split
  · rename_i ip hfound
    have := List.find?_some hfound
    simp only [Bool.and_eq_true, decide_eq_true_eq] at this
    exact .ok (h.setRef this.1 _)
  · rename_i hnone
    split
    · exact .error (.inl rfl)
    · refine .ok (h.change h.wellFormed (fun _ _ _ => rfl) (fun j _ hr heq => ?_) (fun _ => hi) fun _ hv => nomatch hv)
      have := List.find?_eq_none.mp hnone j (List.mem_finRange j)
      simp only [Bool.and_eq_true, decide_eq_true_eq, beq_iff_eq, not_and] at this
      exact this hr heq

theorem Inv.ialloc (type : UInt16) :
    Ends (s.ialloc sb type) TablePanic fun r => r.2.Inv sb := by
  unfold InodeSys.ialloc
  split
  · exact .ok h
  · rename_i inum hfound
    have hmem := List.mem_range'_1.mp (List.mem_of_find?_eq_some hfound)
    have hfree : (sb.dinodes s.disk (.ofNat inum)).type = 0 := by simpa using List.find?_some hfound
    have hlt : UInt32.ofNat inum < sb.ninodes := by
      have := sb.ninodes.toNat_lt
      rw [UInt32.lt_iff_toNat_lt, UInt32.toNat_ofNat']; omega
    have hp : sb.Pending s.disk (.ofNat inum) { Dinode.zero with type := type } :=
      (h.wellFormed.pending hlt).of_empty (.inl hfree) (.inr fun _ => rfl)
    have hw : Written sb s.disk (.ofNat inum) _ _ := .iupdate h.wellFormed.sane hp
      (fun _ bn hbn => by simp [BSIZE, Dinode.zero] at hbn) fun _ _ => rfl
    have hinv : Inv sb { s with disk := iupdate sb s.disk (.ofNat inum) { Dinode.zero with type := type } } :=
      ⟨hw.wellFormed, h.lt, h.unique, fun ip hr hv => by
        obtain ⟨hdin, htype⟩ := h.cached ip hr hv
        refine ⟨hdin.trans (hw.others _ (h.lt ip hr) fun heq => htype ?_).symm, htype⟩
        rw [hdin, heq, hfree]⟩
    exact (hinv.iget hlt).bind fun r hr => .ok hr

theorem Inv.ilock (ip : Fin NINODE) :
    Ends (s.ilock sb ip) TablePanic fun s' => s'.Inv sb ∧ 0 < (s'.itable ip).ref ∧ (s'.itable ip).valid := by
  unfold InodeSys.ilock
  split
  · exact .error (.inr (.inl rfl))
  · rename_i hr
    have hr : 0 < (s.itable ip).ref := Nat.pos_of_ne_zero (by omega)
    split
    · rename_i hv
      exact .ok ⟨h, hr, hv⟩
    · simp only
      split
      · exact .error (.inr (.inr rfl))
      · rename_i ht
        refine .ok ⟨h.change h.wellFormed (fun _ _ _ => rfl) (fun j hj hrj => h.unique j ip hj hrj hr) (fun _ => h.lt ip hr)
          fun _ _ => ⟨rfl, ht⟩, ?_, ?_⟩
        · simpa [setInode] using hr
        · simp [setInode]

/-- A call that writes the inode back. -/
theorem Inv.locked (ip : Fin NINODE) {op : Disk → UInt32 → Dinode → Except FsStop (Disk × Dinode)}
    (hop : ∀ disk inum, sb.WellFormed disk → inum < sb.ninodes → (sb.dinodes disk inum).type ≠ 0 →
      ∃ disk' din', op disk inum (sb.dinodes disk inum) = .ok (disk', din') ∧ din'.type ≠ 0 ∧
        Written sb disk inum disk' din') :
    Ends (s.locked sb ip op) TablePanic (Inv sb) := by
  refine (h.ilock ip).bind fun s' ⟨hs', hr, hv⟩ => ?_
  obtain ⟨hdin, ht⟩ := hs'.cached ip hr hv
  rw [hdin] at ht
  obtain ⟨disk', din', hrun, ht', hw⟩ := hop s'.disk (s'.itable ip).inum hs'.wellFormed (hs'.lt ip hr) ht
  rw [hdin, hrun]
  exact .ok (hs'.change hw.wellFormed hw.others (fun j hj hrj => hs'.unique j ip hj hrj hr) (fun _ => hs'.lt ip hr)
    fun _ _ => ⟨hw.self.symm, ht'⟩)

/-- The inode has no type on the disk afterwards, so that it is not valid in the table. -/
theorem Inv.ifree (hr : 0 < (s.itable ip).ref) (hv : (s.itable ip).valid) :
    ∃ s', s.ifree sb ip = .ok s' ∧ s'.Inv sb ∧ 0 < (s'.itable ip).ref := by
  obtain ⟨hdin, ht⟩ := h.cached ip hr hv
  rw [hdin] at ht
  obtain ⟨disk', din', hrun, -, hzero, hw⟩ := itrunc_spec h.wellFormed (h.lt ip hr) ht
  have hp := hw.wellFormed.pending (h.lt ip hr)
  rw [hw.self] at hp
  have hp' : sb.Pending disk' (s.itable ip).inum { din' with type := 0 } := hp.of_empty (.inr hzero) (.inl rfl)
  have hfree : Written sb disk' (s.itable ip).inum _ _ :=
    .iupdate h.wellFormed.sane hp' (fun hne => absurd rfl hne) fun _ _ => rfl
  refine ⟨_, by simp only [InodeSys.ifree, hdin, hrun, bind, Except.bind]; rfl, ?_, by simpa [setInode] using hr⟩
  exact h.change hfree.wellFormed (fun k hk hne => (hfree.others k hk hne).trans (hw.others k hk hne))
    (fun j hj hrj => h.unique j ip hj hrj hr) (fun _ => h.lt ip hr) fun _ hv => nomatch hv

theorem Inv.iput (hr : 0 < (s.itable ip).ref) : Ends (s.iput sb ip) TablePanic (Inv sb) := by
  unfold InodeSys.iput
  by_cases hlast : (s.itable ip).ref = 1 ∧ (s.itable ip).valid ∧ (s.itable ip).din.nlink = 0
  · obtain ⟨s', hrun, hs', hr'⟩ := h.ifree hr hlast.2.1
    rw [if_pos hlast, hrun]
    exact .ok (hs'.setRef hr' _)
  · rw [if_neg hlast]
    exact .ok (h.setRef hr _)

theorem Inv.call {c : InodeCall} (hc : s.MayCall sb c) : Ends (s.call sb c) TablePanic (Inv sb) := by
  cases c with
  | iget inum => exact .map (h.iget hc)
  | idup ip => exact .ok (h.setRef hc _)
  | ialloc type => exact .map (h.ialloc type)
  | iupdate ip major minor nlink =>
      rw [InodeSys.call]
      refine h.locked ip fun disk inum hwf hi ht => ⟨_, _, rfl, ht, ?_⟩
      exact .iupdate hwf.sane ((hwf.pending hi).congr rfl rfl) (fun _ => hwf.mapped inum hi ht) fun _ _ => rfl
  | writei ip copyin off n =>
      rw [InodeSys.call]
      refine h.locked ip fun disk inum hwf hi ht => ?_
      obtain ⟨tot, disk', ip', hrun, ht', hw⟩ := writei_spec hwf hi ht copyin off n
      exact ⟨disk', ip', by rw [hrun]; rfl, ht', hw⟩
  | itrunc ip =>
      refine h.locked ip fun disk inum hwf hi ht => ?_
      obtain ⟨disk', ip', hrun, ht', -, hw⟩ := itrunc_spec hwf hi ht
      exact ⟨disk', ip', hrun, ht', hw⟩
  | iput ip => exact h.iput hc

theorem Inv.step {s' : InodeSys} {c : InodeCall} (hs : s.step sb c = some s') : s'.Inv sb := by
  unfold InodeSys.step at hs
  split at hs
  · rename_i hc
    cases hcall : s.call sb c with
    | error e => simp [hcall, Except.toOption] at hs
    | ok t =>
        simp only [hcall, Except.toOption, Option.some.injEq] at hs
        exact hs ▸ (h.call hc).2 t hcall
  · cases hs

end

end InodeSys

end Xv6Net.Fs
