import Xv6Net.Fs.Files
import Xv6Net.Fs.Lemmas.Logged

/-!
# What `writei` does to the bytes of a file

The loop stores the bytes of its source without a gap, as far as it comes. If `either_copyin` fails, the bytes that it has
copied are in the block as well.
-/

namespace Xv6Net.Fs

open Lib

variable {sb : Superblock} {disk disk' : Disk} {inum : UInt32} {ip ip' : Dinode} {copyin : Copyin}
  {src : Nat → Option UInt8} {n tot tot' off off' : Nat}

/-- The bytes that are copied are those of `src`, as many as were asked for or those before the first that is not
there. -/
structure Feeds (copyin : Copyin) (src : Nat → Option UInt8) (tot m : Nat) : Prop where
  bytes : ∀ i < (copyin tot m).1.length, (copyin tot m).1[i]? = src (tot + i)
  done : (copyin tot m).2 = true → (copyin tot m).1.length = m
  stopped : (copyin tot m).2 = false → (copyin tot m).1.length < m ∧ src (tot + (copyin tot m).1.length) = none

theorem Feeds.length_le {m : Nat} (h : Feeds copyin src tot m) : (copyin tot m).1.length ≤ m := by
  cases hres : (copyin tot m).2 with
  | true => exact (h.done hres).le
  | false => exact (h.stopped hres).1.le

/-- What a copy that fails has stored behind the bytes that count. -/
def partialLen (copyin : Copyin) (n : Nat) : WriteEnd → Nat → Nat → Nat
  | .fault, tot, off => (copyin tot (min (n - tot) (BSIZE - off % BSIZE))).1.length
  | .done, _, _ | .full, _, _ => 0

/-- The copy into the block at `off'` fails. -/
structure Faulted (src : Nat → Option UInt8) (n tot' off' p : Nat) : Prop where
  lt : tot' + p < n
  short : p < BSIZE - off' % BSIZE
  stopped : src (tot' + p) = none

/-- What the loop of `writei` has done, from `tot` and `off` on. -/
structure Wrote (sb : Superblock) (inum : UInt32) (copyin : Copyin) (src : Nat → Option UInt8) (n tot off : Nat)
    (disk : Disk) (ip : Dinode) (log : List UInt32) (why : WriteEnd) (tot' off' : Nat) (disk' : Disk) (ip' : Dinode) :
    Prop where
  grows : Grows sb inum disk ip disk' ip'
  count : tot ≤ tot' ∧ tot' ≤ n ∧ off' = off + (tot' - tot)
  mapped : ip'.Mapped disk' (max ip.size.toNat off')
  keep : ∀ k, ip.blockAt disk (k / BSIZE) ≠ 0 → ¬ (off ≤ k ∧ k < off' + partialLen copyin n why tot' off') →
    ip'.byte disk' k = ip.byte disk k
  new : ∀ k, off ≤ k → k < off' + partialLen copyin n why tot' off' → src (tot + (k - off)) = some (ip'.byte disk' k)
  done : why = .done → tot' = n
  full : why = .full → sb.Full disk' ∧ ip.blockAt disk (off' / BSIZE) = 0
  fault : why = .fault → Faulted src n tot' off' (partialLen copyin n why tot' off')
  /-- It stops in the first block or at the start of another one. -/
  aligned : tot' = n ∨ tot' = tot ∨ off' % BSIZE = 0
  logged : ∀ b, disk' b ≠ disk b → b ∈ log ∨ why = .fault ∧ b = ip'.blockAt disk' (off' / BSIZE)
  fresh : why = .fault → ip'.blockAt disk' (off' / BSIZE) ≠ 0 ∧
    (ip.blockAt disk (off' / BSIZE) = 0 → ip'.blockAt disk' (off' / BSIZE) ∈ log)
  area : ∀ b ∈ log, sb.InFs b

theorem Bmapped.blockAt_of_ne {bn bn' : Nat} {addr : UInt32} (h : Bmapped sb inum disk ip bn addr disk' ip')
    (hne : bn' ≠ bn) : ip'.blockAt disk' bn' = ip.blockAt disk bn' := by
  rw [Dinode.blockAt, Dinode.blockAt]
  cases hs : Slot.ofIndex bn' with
  | none => rfl
  | some s => exact h.other s (Slot.ofIndex_ne_indirect hs) fun he => hne (Slot.ofIndex_inj hs he)

/-- One block of the loop, with the bytes that were copied; the calls of `log_write` in `bmap` are in `log`. -/
structure Piece (sb : Superblock) (inum : UInt32) (off : Nat) (bytes : List UInt8) (disk : Disk) (ip : Dinode)
    (log : List UInt32) (addr : UInt32) (disk' : Disk) (ip' : Dinode) : Prop where
  grows : Grows sb inum disk ip disk' ip'
  at_addr : ip'.blockAt disk' (off / BSIZE) = addr
  isData : sb.IsData addr
  ne : addr ≠ 0
  keep : ∀ k, ip.blockAt disk (k / BSIZE) ≠ 0 → ¬ (off ≤ k ∧ k < off + bytes.length) →
    ip'.byte disk' k = ip.byte disk k
  new : ∀ k, off ≤ k → k < off + bytes.length → bytes[k - off]? = some (ip'.byte disk' k)
  logged : ∀ b, disk' b ≠ disk b → b ∈ log ∨ b = addr
  fresh : ip.blockAt disk (off / BSIZE) = 0 → addr ∈ log
  other : ∀ bn, bn ≠ off / BSIZE → ip'.blockAt disk' bn = ip.blockAt disk bn
  area : ∀ b ∈ log, sb.InFs b

theorem Piece.of_bmapped (hsb : sb.Sane) (h : sb.Pending disk inum ip) (ht : ip.type ≠ 0) {addr : UInt32} {disk₁ : Disk}
    {bytes : List UInt8} (hrun : bmap sb disk ip (off / BSIZE) = .ok (addr, disk₁, ip'))
    (hmaps : Bmapped sb inum disk ip (off / BSIZE) addr disk₁ ip') (h0 : addr ≠ 0)
    (hfit : off % BSIZE + bytes.length ≤ BSIZE) :
    Piece sb inum off bytes disk ip (bmapLogged sb disk ip (off / BSIZE)).log addr
      (Function.update disk₁ addr ((disk₁ addr).store (off % BSIZE) bytes)) ip' := by
  have ht₁ : ip'.type ≠ 0 := hmaps.type ▸ ht
  have hat := hmaps.addr h0
  have hne : ip'.blockAt disk₁ (off / BSIZE) ≠ 0 := by rwa [hat]
  have hw := Grows.writeData hsb hmaps.pending ht₁ hne ((disk₁ addr).store (off % BSIZE) bytes)
  have hbyte {k : Nat} (hk : ip'.blockAt disk₁ (k / BSIZE) ≠ 0) := byte_writeData hsb hmaps.pending ht₁ hne hfit hk
  have hfile := hmaps.pending.fileBlock hsb ht₁ hne
  rw [hat] at hw hbyte hfile
  have hslot := hfile.slot h.lt ht₁ ((disk₁ addr).store (off % BSIZE) bytes)
  obtain ⟨hlogs, hnew⟩ := bmapLogged_logs hrun
  refine ⟨hmaps.toGrows.trans hw, by rw [hw.blockAt ht₁ hne, hat], hfile.isData, h0, fun k hk hout => ?_,
    fun k hlo hhi => ?_, fun b hb => ?_, fun hnone => hnew hnone h0, fun bn hbn => ?_, bmapLogged_area hsb h ht _⟩
  · rw [hbyte (hmaps.blockAt_ne ht hk), if_neg hout, hmaps.toMaps.byte h.lt ht hk]
  · have hk : k / BSIZE = off / BSIZE := by simp only [BSIZE] at hfit ⊢; omega
    rw [hbyte (by rwa [hk]), if_pos ⟨hlo, hhi⟩, getElem?_eq_byteAt (by omega)]
  · by_cases hba : b = addr
    · exact .inr hba
    · rw [Function.update_of_ne hba] at hb
      exact .inl (hlogs b hb)
  · rw [Dinode.blockAt_congr hslot, hmaps.blockAt_of_ne hbn]

namespace Piece

variable {bytes : List UInt8} {log log' : List UInt32} {addr : UInt32}

theorem blockAt_ne (h : Piece sb inum off bytes disk ip log addr disk' ip') : ip'.blockAt disk' (off / BSIZE) ≠ 0 := by
  rw [h.at_addr]; exact h.ne

theorem mapped (h : Piece sb inum off bytes disk ip log addr disk' ip') (ht : ip.type ≠ 0)
    (hm : ip.Mapped disk (max ip.size.toNat off)) (hoff : off + bytes.length ≤ (off / BSIZE + 1) * BSIZE) :
    ip'.Mapped disk' (max ip'.size.toNat (off + bytes.length)) := by
  rw [h.grows.size]
  exact (h.grows.mapped ht hm).extend h.blockAt_ne hoff

/-- The loop ends in this block, which is released without `log_write`. -/
theorem fault {m : Nat} (h : Piece sb inum off (copyin tot m).1 disk ip log addr disk' ip') (ht : ip.type ≠ 0)
    (hm : ip.Mapped disk (max ip.size.toNat off)) (htot : tot < n) (hm' : min (n - tot) (BSIZE - off % BSIZE) = m)
    (hfeeds : Feeds copyin src tot m) (hres : (copyin tot m).2 = false) :
    Wrote sb inum copyin src n tot off disk ip (log ++ []) .fault tot off disk' ip' := by
  have hlen : partialLen copyin n .fault tot off = (copyin tot m).1.length := by rw [partialLen, hm']
  obtain ⟨hshort, hstop⟩ := hfeeds.stopped hres
  rw [List.append_nil]
  refine ⟨h.grows, ⟨le_rfl, htot.le, by omega⟩, h.grows.mapped ht hm, ?_, ?_, nofun, nofun, ?_, .inr (.inl rfl),
    fun b hb => ?_, fun _ => ⟨h.blockAt_ne, fun hnone => ?_⟩, h.area⟩
  · rw [hlen]; exact h.keep
  · intro k hlo hhi
    rw [hlen] at hhi
    rw [← hfeeds.bytes (k - off) (by omega), h.new k hlo hhi]
  · rw [hlen]
    exact fun _ => ⟨by omega, by omega, hstop⟩
  · rw [h.at_addr]
    exact (h.logged b hb).imp id fun hb => ⟨rfl, hb⟩
  · rw [h.at_addr]
    exact h.fresh hnone

/-- The block is logged and the loop goes on behind it. -/
theorem next {why : WriteEnd} {disk₁ : Disk} {ip₁ : Dinode} {p : Nat} (hsb : sb.Sane)
    (h : Piece sb inum off bytes disk ip log addr disk₁ ip₁) (ht : ip.type ≠ 0)
    (hp : min (n - tot) (BSIZE - off % BSIZE) = p) (hlen : bytes.length = p)
    (hbytes : ∀ i < p, bytes[i]? = src (tot + i))
    (hw : Wrote sb inum copyin src n (tot + p) (off + p) disk₁ ip₁ log' why tot' off' disk' ip') :
    Wrote sb inum copyin src n tot off disk ip (log ++ ([addr] ++ log')) why tot' off' disk' ip' := by
  have ht₁ : ip₁.type ≠ 0 := h.grows.type ▸ ht
  have hmod : off % BSIZE < BSIZE := Nat.mod_lt _ (by decide)
  obtain ⟨hle, hle', hoff⟩ := hw.count
  refine ⟨h.grows.trans hw.grows, ⟨by omega, hle', by omega⟩, h.grows.size ▸ hw.mapped, fun k hk hout => ?_,
    fun k hlo hhi => ?_, hw.done, fun hwhy => ⟨(hw.full hwhy).1, ?_⟩, hw.fault, ?_, fun b hb => ?_,
    fun hwhy => ⟨(hw.fresh hwhy).1, fun hnone => ?_⟩, fun b hb => ?_⟩
  · have hk₁ := h.grows.blockAt_ne ht hk
    rw [hw.keep k hk₁ (by omega), h.keep k hk (by omega)]
  · by_cases hin : k < off + p
    · have hk₁ : ip₁.blockAt disk₁ (k / BSIZE) ≠ 0 := by
        have : k / BSIZE = off / BSIZE := by simp only [BSIZE] at hp ⊢; omega
        rw [this]
        exact h.blockAt_ne
      rw [hw.keep k hk₁ (by omega), ← h.new k hlo (by omega), hbytes _ (by omega)]
    · rw [← hw.new k (by omega) hhi]
      congr 1; omega
  · by_contra hne
    exact h.grows.blockAt_ne ht hne (hw.full hwhy).2
  · have := hw.aligned
    simp only [BSIZE] at hp this ⊢
    omega
  · by_cases hb₁ : disk' b = disk₁ b
    · rcases h.logged b (by rwa [← hb₁]) with hlog | rfl
      · exact .inl (List.mem_append_left _ hlog)
      · exact .inl (by simp)
    · exact (hw.logged b hb₁).imp (fun hlog => by simp [hlog]) id
  · -- the loop did not fail in this block, so the one in which it did is another
    have hother : off' / BSIZE ≠ off / BSIZE := by
      have := (hw.fault hwhy).lt
      simp only [BSIZE] at hp ⊢
      omega
    have := (hw.fresh hwhy).2 (by rw [h.other _ hother, hnone])
    simp [this]
  · simp only [List.mem_append, List.mem_singleton] at hb
    rcases hb with hb | rfl | hb
    · exact h.area b hb
    · exact hsb.inFs_of_isData h.isData
    · exact hw.area b hb

end Piece

theorem writeLoopLogged_wrote (hsb : sb.Sane) (hfeeds : ∀ tot m, tot + m ≤ n → Feeds copyin src tot m) :
    ∀ (fuel tot off : Nat) (disk : Disk) (ip : Dinode), sb.Pending disk inum ip → ip.type ≠ 0 →
      ip.Mapped disk (max ip.size.toNat off) → off + (n - tot) ≤ MAXFILE * BSIZE → tot ≤ n → n - tot < fuel →
      ∃ why tot' off' disk' ip',
        (writeLoopLogged sb copyin n fuel tot off disk ip).val = .ok (why, tot', off', disk', ip') ∧
        Wrote sb inum copyin src n tot off disk ip (writeLoopLogged sb copyin n fuel tot off disk ip).log why tot' off'
          disk' ip' := by
  intro fuel
  induction fuel with
  | zero => exact fun tot off disk ip _ _ _ _ _ hfuel => absurd hfuel (Nat.not_lt_zero _)
  | succ fuel ih =>
      intro tot off disk ip h ht hm hmax hle hfuel
      rw [writeLoopLogged]
      by_cases htot : tot < n
      · have hbn : off / BSIZE < MAXFILE := by
          rw [Nat.div_lt_iff_lt_mul (by decide)]; omega
        have hmod : off % BSIZE < BSIZE := Nat.mod_lt _ (by decide)
        obtain ⟨addr, disk₁, ip₁, heq, hmaps⟩ := bmap_spec hsb h ht hbn
        have ht₁ : ip₁.type ≠ 0 := hmaps.type ▸ ht
        rw [if_pos htot, Logged.andThen_ok heq]
        dsimp only
        by_cases h0 : addr = 0
        · rw [if_pos h0]
          refine ⟨.full, tot, off, disk₁, ip₁, rfl, hmaps.toGrows, ⟨le_rfl, hle, by omega⟩, hmaps.mapped ht hm,
            fun k hk _ => hmaps.toMaps.byte h.lt ht hk, fun k hlo hhi => ?_, (WriteEnd.noConfusion ·),
            fun _ => ⟨hmaps.full h0, ?_⟩, (WriteEnd.noConfusion ·), .inr (.inl rfl), fun b hb => .inl ?_,
            (WriteEnd.noConfusion ·), ?_⟩
          · exact absurd hlo (by simp only [partialLen] at hhi; omega)
          · by_contra hne
            rw [bmap_of_blockAt hne] at heq
            cases heq
            exact hne h0
          · exact List.mem_append_left _ ((bmapLogged_logs heq).1 b hb)
          · rw [Logged.log_pure, List.append_nil]
            exact bmapLogged_area hsb h ht _
        · rw [if_neg h0]
          generalize hm' : min (n - tot) (BSIZE - off % BSIZE) = m
          have hfed := hfeeds tot m (by omega)
          have hlen := hfed.length_le
          rw [List.take_of_length_le hlen]
          have hpiece : Piece sb inum off (copyin tot m).1 disk ip _ addr _ ip₁ :=
            .of_bmapped hsb h ht heq hmaps h0 (by omega)
          cases hres : (copyin tot m).2 with
          | false => exact ⟨.fault, tot, off, _, ip₁, rfl, hpiece.fault ht hm htot hm' hfed hres⟩
          | true =>
              have hall := hfed.done hres
              have hm₁ := hpiece.mapped ht hm (by rw [hall]; exact hm' ▸ piece_le n tot off)
              rw [hall] at hm₁
              obtain ⟨why, tot', off', disk', ip', hrun, hw⟩ :=
                ih (tot + m) (off + m) _ ip₁ hpiece.grows.pending ht₁ hm₁ (by omega) (by omega) (by omega)
              exact ⟨why, tot', off', disk', ip', hrun, hpiece.next hsb ht hm' hall (fun i hi => hfed.bytes i (by omega)) hw⟩
      · rw [if_neg htot]
        have htot' : tot = n := by omega
        refine ⟨.done, tot, off, disk, ip, rfl, .refl h, ⟨le_rfl, hle, by omega⟩, hm, fun _ _ _ => rfl, fun k hlo hhi => ?_,
          fun _ => htot', (WriteEnd.noConfusion ·), (WriteEnd.noConfusion ·), .inl htot', fun b hb => absurd rfl hb,
          (WriteEnd.noConfusion ·), by simp⟩
        exact absurd hlo (by simp only [partialLen] at hhi; omega)

/-! ## The write back -/

/-- The inode in memory after a write up to `off`. -/
def Dinode.grown (ip : Dinode) (off : Nat) : Dinode := if ip.size.toNat < off then { ip with size := .ofNat off } else ip

theorem Dinode.size_grown (h : off ≤ MAXFILE * BSIZE) : (ip.grown off).size.toNat = max ip.size.toNat off := by
  unfold grown
  simp only [MAXFILE, NDIRECT, NINDIRECT, BSIZE] at h
  split
  · rw [UInt32.toNat_ofNat']; omega
  · omega

@[simp] theorem Dinode.type_grown : (ip.grown off).type = ip.type := by unfold grown; split <;> rfl

@[simp] theorem Dinode.addrs_grown : (ip.grown off).addrs = ip.addrs := by unfold grown; split <;> rfl

/-- The inode with its new size is on the disk; the bytes below are those that the loop has left. -/
structure Stored (sb : Superblock) (disk : Disk) (inum : UInt32) (off : Nat) (disk₁ : Disk) (ip₁ : Dinode) (disk' : Disk)
    (ip' : Dinode) : Prop where
  written : Written sb disk inum disk' ip'
  type : ip'.type ≠ 0
  size : ip'.size.toNat = max (sb.dinodes disk inum).size.toNat off
  slot : ∀ s, ip'.slot disk' s = ip₁.slot disk₁ s
  byte : ∀ k < ip'.size.toNat, ip'.byte disk' k = ip₁.byte disk₁ k
  others : ∀ q < sb.ninodes, q ≠ inum → (sb.dinodes disk q).type ≠ 0 → SameFile sb disk disk' q

theorem Wrote.stored (h : sb.WellFormed disk) (hi : inum < sb.ninodes) (ht : (sb.dinodes disk inum).type ≠ 0)
    (hmax : off + (n - tot) ≤ MAXFILE * BSIZE) {log : List UInt32} {why : WriteEnd}
    (hw : Wrote sb inum copyin src n tot off disk (sb.dinodes disk inum) log why tot' off' disk' ip') :
    Stored sb disk inum off' disk' ip' (iupdate sb disk' inum (ip'.grown off')) (ip'.grown off') := by
  have hg := hw.grows
  have ht' : ip'.type ≠ 0 := hg.type ▸ ht
  have hsize : (ip'.grown off').size.toNat = max (sb.dinodes disk inum).size.toNat off' := by
    rw [Dinode.size_grown (by have := hw.count; omega), hg.size]
  have hmapped : ip'.Mapped disk' (ip'.grown off').size.toNat := hsize ▸ hw.mapped
  have hslot₁ (d : Disk) (s : Slot) : (ip'.grown off').slot d s = ip'.slot d s :=
    congrFun (Dinode.slot_of_addrs Dinode.addrs_grown) s
  have hslot (s : Slot) : (ip'.grown off').slot (iupdate sb disk' inum (ip'.grown off')) s = ip'.slot disk' s := by
    rw [hslot₁, hg.pending.slot_iupdate h.sane ht']
  refine ⟨.iupdate h.sane (hg.pending.congr Dinode.type_grown Dinode.addrs_grown) (fun _ => hmapped.congr (hslot₁ disk')) hg.inodes,
    by rwa [Dinode.type_grown], hsize, hslot, fun k hk => ?_, fun q hq hne htq => hg.sameFile h.sane (h.pending hi) hq hne htq⟩
  have hne : ip'.blockAt disk' (k / BSIZE) ≠ 0 := hmapped _ (by simp only [BSIZE]; omega)
  obtain ⟨s, -, hs⟩ := Dinode.exists_slot hne
  rw [Dinode.byte, Dinode.blockAt_congr hslot, Dinode.byte, hs,
    iupdate_of_inUse h.sane hi (hg.pending.inUse_slot ht' (hs ▸ hne)).1]

theorem Superblock.Full.iupdate (hsb : sb.Sane) (h : sb.Full disk) (hi : inum < sb.ninodes) :
    sb.Full (Fs.iupdate sb disk inum ip) := by
  intro b hb
  have hne : sb.bblock b ≠ sb.iblock inum :=
    fun heq => (hsb.isInodes_iblock hi).2.not_isBitmap (heq ▸ (hsb.isBitmap_bblock hb.2).2)
  have hsame : Fs.iupdate sb disk inum ip (sb.bblock b) = disk (sb.bblock b) := Function.update_of_ne hne ..
  rw [Superblock.bit_congr hsame]
  exact h b hb

/-- The range does not start behind the end of the file, and it does not exceed the size of the largest one. -/
def Dinode.MayWrite (ip : Dinode) (off n : UInt32) : Prop :=
  off.toNat ≤ ip.size.toNat ∧ off.toNat + n.toNat < 2 ^ 32 ∧ off.toNat + n.toNat ≤ MAXFILE * BSIZE

/-- The checks of `writei`, and its loop with the write back. -/
theorem writeiLogged_spec (h : sb.WellFormed disk) (hi : inum < sb.ninodes) (ht : (sb.dinodes disk inum).type ≠ 0)
    (off : UInt32) {n : UInt32} (hfeeds : ∀ tot m, tot + m ≤ n.toNat → Feeds copyin src tot m) :
    (¬ (sb.dinodes disk inum).MayWrite off n ∧
      writeiLogged sb disk inum (sb.dinodes disk inum) copyin off n = pure (.ok (none, -1, disk, sb.dinodes disk inum))) ∨
    ((sb.dinodes disk inum).MayWrite off n ∧
      ∃ log why tot' off' disk' ip',
        Wrote sb inum copyin src n.toNat 0 off.toNat disk (sb.dinodes disk inum) log why tot' off' disk' ip' ∧
        writeiLogged sb disk inum (sb.dinodes disk inum) copyin off n =
          ⟨log ++ [sb.iblock inum],
            .ok (some why, tot', iupdate sb disk' inum (ip'.grown off'), ip'.grown off')⟩) := by
  have hadd : (off + n).toNat = (off.toNat + n.toNat) % 2 ^ 32 := UInt32.toNat_add ..
  have hoff := off.toNat_lt
  have hn := n.toNat_lt
  by_cases hmay : (sb.dinodes disk inum).MayWrite off n
  · obtain ⟨hle, hwrap, hmax⟩ := hmay
    refine .inr ⟨⟨hle, hwrap, hmax⟩, ?_⟩
    have hm : (sb.dinodes disk inum).Mapped disk (max (sb.dinodes disk inum).size.toNat off.toNat) := by
      rw [Nat.max_eq_left hle]
      exact h.mapped inum hi ht
    obtain ⟨why, tot', off', disk', ip', hval, hw⟩ :=
      writeLoopLogged_wrote h.sane hfeeds (n.toNat + 1) 0 off.toNat disk _ (h.pending hi) ht hm hmax (by omega) (by omega)
    refine ⟨_, why, tot', off', disk', ip', hw, ?_⟩
    unfold writeiLogged
    rw [if_neg (by simp only [UInt32.lt_iff_toNat_lt]; omega), if_neg (by omega), Logged.andThen_ok hval]
    rfl
  · refine .inl ⟨hmay, ?_⟩
    unfold Dinode.MayWrite at hmay
    unfold writeiLogged
    simp only [UInt32.lt_iff_toNat_lt]
    split
    · rfl
    · rw [if_pos (by omega)]

/-! ## From a kernel buffer -/

theorem copyFrom_feeds {data : List UInt8} {m : Nat} (h : tot + m ≤ data.length) :
    Feeds (copyFrom data) (data[·]?) tot m := by
  have hlen : ((data.drop tot).take m).length = m := by
    rw [List.length_take, List.length_drop]; omega
  refine ⟨fun i hi => ?_, fun _ => hlen, nofun⟩
  rw [copyFrom, List.getElem?_take_of_lt (by rw [copyFrom, hlen] at hi; exact hi), List.getElem?_drop]

variable {data : List UInt8} {log : List UInt32} {why : WriteEnd}

theorem Wrote.partialLen_copyFrom
    (hw : Wrote sb inum (copyFrom data) (data[·]?) data.length tot off disk ip log why tot' off' disk' ip') :
    why ≠ .fault ∧ partialLen (copyFrom data) data.length why tot' off' = 0 := by
  cases why with
  | done => exact ⟨nofun, rfl⟩
  | full => exact ⟨nofun, rfl⟩
  | fault =>
      obtain ⟨hlt, -, hstop⟩ := hw.fault rfl
      rw [List.getElem?_eq_getElem hlt] at hstop
      cases hstop

/-- The file is the old one with the bytes that were written in place of those that were there. -/
theorem Wrote.contents_copyFrom (h : sb.WellFormed disk) (hi : inum < sb.ninodes)
    (ht : (sb.dinodes disk inum).type ≠ 0) (hoff : off ≤ (sb.dinodes disk inum).size.toNat)
    (hmax : off + data.length ≤ MAXFILE * BSIZE)
    (hw : Wrote sb inum (copyFrom data) (data[·]?) data.length 0 off disk (sb.dinodes disk inum) log why tot' off' disk'
      ip') :
    (ip'.grown off').contents (iupdate sb disk' inum (ip'.grown off')) =
      splice ((sb.dinodes disk inum).contents disk) off (data.take tot') := by
  have hstored := hw.stored h hi ht hmax
  obtain ⟨-, hle, hoff'⟩ := hw.count
  have hnew := hw.new
  have hkeep := hw.keep
  simp only [hw.partialLen_copyFrom.2, Nat.add_zero, Nat.zero_add] at hnew hkeep
  have hlen : (data.take tot').length = tot' := by rw [List.length_take]; omega
  have hsize : (ip'.grown off').size.toNat =
      max (sb.dinodes disk inum).size.toNat (off + (data.take tot').length) := by
    rw [hstored.size, hlen]; omega
  rw [Dinode.contents, hsize, Dinode.contents]
  apply slice_splice hoff
  · intro k hk hout
    rw [hlen] at hout
    rw [hstored.byte k (by omega), hkeep k (h.mapped inum hi ht _ (by simp only [BSIZE]; omega)) (by omega)]
  · intro k hk
    rw [hlen] at hk
    have hbyte := hnew (off + k) (by omega) (by omega)
    rw [Nat.add_sub_cancel_left, getElem?_eq_byteAt (by omega)] at hbyte
    rw [hstored.byte _ (by omega), byteAt_take hk, Option.some.inj hbyte]

theorem writei_copyFrom (h : sb.WellFormed disk) (hi : inum < sb.ninodes) (ht : (sb.dinodes disk inum).type ≠ 0)
    {off n : UInt32} (hlen : data.length = n.toNat) :
    (¬ (sb.dinodes disk inum).MayWrite off n ∧
      writei sb disk inum (sb.dinodes disk inum) (copyFrom data) off n = .ok (-1, disk, sb.dinodes disk inum)) ∨
    ((sb.dinodes disk inum).MayWrite off n ∧ ∃ m : Nat, ∃ disk' ip', m ≤ n.toNat ∧
      writei sb disk inum (sb.dinodes disk inum) (copyFrom data) off n = .ok (m, disk', ip') ∧
      FileWritten sb disk inum off.toNat (data.take m) disk' ip' ∧
      (m < n.toNat → sb.Full disk' ∧ (sb.dinodes disk inum).blockAt disk ((off.toNat + m) / BSIZE) = 0 ∧
        (m = 0 ∨ (off.toNat + m) % BSIZE = 0))) := by
  rw [writei]
  rcases writeiLogged_spec h hi ht off (fun _ _ hle => copyFrom_feeds (hlen ▸ hle)) with
    ⟨hmay, heq⟩ | ⟨hmay, log, why, tot', off', disk', ip', hw, heq⟩
  · rw [heq]
    exact .inl ⟨hmay, rfl⟩
  · rw [heq]
    rw [← hlen] at hw
    have hmax : off.toNat + data.length ≤ MAXFILE * BSIZE := hlen ▸ hmay.2.2
    have hstored := hw.stored h hi ht hmax
    refine .inr ⟨hmay, tot', _, _, hlen ▸ hw.count.2.1, rfl, ⟨hstored.written.wellFormed, hstored.written.self, ?_,
      hw.contents_copyFrom h hi ht hmay.1 hmax, hstored.written.others, fun q hq hne htq => ?_⟩, fun hlt => ?_⟩
    · rw [Dinode.type_grown, hw.grows.type]
    · exact (hstored.others q hq hne htq).contents (h.mapped q hq htq)
    · obtain ⟨-, -, hoff⟩ := hw.count
      rw [Nat.sub_zero] at hoff
      rw [← hoff]
      have haligned := hw.aligned
      cases why with
      | done => exact absurd (hw.done rfl) (by omega)
      | full => exact ⟨(hw.full rfl).1.iupdate h.sane hi, (hw.full rfl).2, by omega⟩
      | fault => exact absurd rfl hw.partialLen_copyFrom.1

/-- An append that is complete, and the write back of the new size. -/
theorem writeLoop_append (h : sb.WellFormed disk) (hi : inum < sb.ninodes) (ht : (sb.dinodes disk inum).type ≠ 0)
    (hmax : (sb.dinodes disk inum).size.toNat + data.length ≤ MAXFILE * BSIZE)
    (hrun : writeLoop sb (copyFrom data) data.length (data.length + 1) 0 (sb.dinodes disk inum).size.toNat disk
      (sb.dinodes disk inum) = .ok (data.length, (sb.dinodes disk inum).size.toNat + data.length, disk', ip')) :
    let ip'' := { ip' with size := .ofNat ((sb.dinodes disk inum).size.toNat + data.length) }
    let disk'' := iupdate sb disk' inum ip''
    Written sb disk inum disk'' ip'' ∧ ip''.type ≠ 0 ∧ (∀ s, ip''.slot disk'' s = ip'.slot disk' s) ∧
      ip''.contents disk'' = (sb.dinodes disk inum).contents disk ++ data ∧
      ∀ q < sb.ninodes, q ≠ inum → (sb.dinodes disk q).type ≠ 0 → SameFile sb disk disk'' q := by
  intro ip'' disk''
  have hm : (sb.dinodes disk inum).Mapped disk
      (max (sb.dinodes disk inum).size.toNat (sb.dinodes disk inum).size.toNat) := by
    rw [Nat.max_self]
    exact h.mapped inum hi ht
  obtain ⟨why, tot, off, disk₁, ip₁, hval, hw⟩ :=
    writeLoopLogged_wrote h.sane (fun _ _ hle => copyFrom_feeds hle) (data.length + 1) 0 _ disk _ (h.pending hi) ht hm hmax (by omega)
      (by omega)
  rw [writeLoop, hval] at hrun
  obtain ⟨rfl, rfl, rfl, rfl⟩ : _ ∧ _ ∧ _ ∧ _ := by simpa only [Except.map, Except.ok.injEq, Prod.mk.injEq] using hrun
  have hgrown : ip₁.grown ((sb.dinodes disk inum).size.toNat + data.length) = ip'' := by
    unfold Dinode.grown
    split
    · rfl
    · rename_i hle
      rw [hw.grows.size] at hle
      obtain rfl : data = [] := List.length_eq_zero_iff.mp (by omega)
      simp [ip'', ← hw.grows.size]
  have hstored := hw.stored h hi ht hmax
  have hcontents := hw.contents_copyFrom h hi ht le_rfl hmax
  rw [hgrown] at hstored hcontents
  refine ⟨hstored.written, hstored.type, hstored.slot, ?_, hstored.others⟩
  rw [hcontents, List.take_length]
  have hlen : ((sb.dinodes disk inum).contents disk).length = (sb.dinodes disk inum).size.toNat := length_slice ..
  rw [← hlen, splice_length]

end Xv6Net.Fs
