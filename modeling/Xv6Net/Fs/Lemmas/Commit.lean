import Xv6Net.Fs.Lemmas.Disk
import Xv6Net.Fs.Lemmas.Log

/-!
# Crashes during a commit and during recovery

The writes of `commit` are those of the log blocks, the header, the home blocks and the empty header. Before the header
is written the disk is settled with the old contents. From there on recovery finds the transaction in the log, whatever
part of it has been installed, until the disk is settled with the new contents.
-/

namespace Xv6Net.Fs

open Kernel Lib

variable {f : Disk}

/-! ## The header -/

variable {hb : Block} {lh : List UInt32} {i j : Nat}

theorem fillHead_word_of_lt (h : j < 1 + i) : (fillHead hb i lh).word j = hb.word j := by
  induction lh generalizing hb i with
  | nil => rfl
  | cons b lh ih => rw [fillHead, ih (by omega), Block.word_setWord_of_ne (by omega)]

theorem fillHead_word (h : 1 + i + lh.length ≤ BSIZE / 4) {x : UInt32} (hx : lh[j]? = some x) :
    (fillHead hb i lh).word (1 + i + j) = x := by
  induction lh generalizing hb i j with
  | nil => simp at hx
  | cons b lh ih =>
      rw [fillHead]
      simp only [List.length_cons] at h
      cases j with
      | zero =>
          rw [fillHead_word_of_lt (by omega), Nat.add_zero, Block.word_setWord_self (by omega)]
          simpa using hx
      | succ j =>
          have : (fillHead (hb.setWord (1 + i) b) (i + 1) lh).word (1 + (i + 1) + j) = x :=
            ih (by omega) (by simpa using hx)
          rwa [show 1 + (i + 1) + j = 1 + i + (j + 1) by omega] at this

theorem toNat_toInt32_ofNat (h : i ≤ LOGSIZE) : (UInt32.ofNat i).toInt32.toInt.toNat = i := by
  have : ∀ i : Fin (LOGSIZE + 1), (UInt32.ofNat i).toInt32.toInt.toNat = i := by decide
  exact this ⟨i, Nat.lt_succ_of_le h⟩

/-- The block at `log.start` has the list `lh`. -/
structure IsHead (hb : Block) (lh : List UInt32) : Prop where
  n : hb.word 0 = .ofNat lh.length
  block : ∀ i x, lh[i]? = some x → hb.word (1 + i) = x

def headBlock (buf : Block) (lh : List UInt32) : Block := fillHead (buf.setWord 0 (.ofNat lh.length)) 0 lh

theorem isHead_headBlock (buf : Block) (h : lh.length ≤ LOGSIZE) : IsHead (headBlock buf lh) lh where
  n := by rw [headBlock, fillHead_word_of_lt (by omega), Block.word_setWord_self (by decide)]
  block := by
    intro i x hx
    have hle : 1 + 0 + lh.length ≤ BSIZE / 4 := by simp only [LOGSIZE, MAXOPBLOCKS, BSIZE] at h ⊢; omega
    exact fillHead_word hle hx

theorem headBlock_nil (buf : Block) : (headBlock buf []).word 0 = 0 := (isHead_headBlock buf (by simp)).n

theorem readHead_of_isHead (log : Log) (d : Dev) (h : IsHead (d.bread log.start) lh) (hlen : lh.length ≤ LOGSIZE) :
    readHead log d = .ok { log with lh := lh } := by
  have hmap : (List.range lh.length).map (fun i => (d.bread log.start).word (1 + i)) = lh := by
    apply List.ext_getElem
    · simp
    · intro i hi hi'
      simpa using h.block i lh[i] (List.getElem?_eq_getElem hi')
  simp only [readHead, h.n, toNat_toInt32_ofNat hlen, if_pos hlen, hmap]

/-! ## What the functions write -/

section Writes

variable {log : Log} {d : Dev} {tail : Nat} {bs : List UInt32}

theorem writeHead_eq (log : Log) (d : Dev) :
    writeHead log d = d.bwrites [(log.start, headBlock (d.bread log.start) log.lh)] := rfl

/-- The writes of `write_log`, if the buffers have the data `f`. -/
def slotWrites (log : Log) (f : Disk) (tail : Nat) (bs : List UInt32) : List (UInt32 × Block) :=
  (bs.zipIdx tail).map fun p => (log.slot p.2, f p.1)

theorem writeLog_eq (h : ∀ b ∈ bs, ∀ i, tail ≤ i → i < tail + bs.length → b ≠ log.slot i) :
    writeLog log tail bs d = d.bwrites (slotWrites log d.bread tail bs) := by
  induction bs generalizing tail d with
  | nil => rfl
  | cons b bs ih =>
      simp only [List.length_cons] at h
      have hrest : slotWrites log (d.bwrite (log.slot tail) (d.bread b)).bread (tail + 1) bs =
          slotWrites log d.bread (tail + 1) bs := by
        apply List.map_congr_left
        intro p hp
        have hp := List.fst_mem_of_mem_zipIdx hp
        rw [Dev.bread_bwrite, Function.update_of_ne (h p.1 (List.mem_cons_of_mem b hp) tail (by omega) (by omega))]
      rw [writeLog, ih, hrest]
      · rfl
      · intro c hc i hi hlt
        exact h c (List.mem_cons_of_mem b hc) i (by omega) (by omega)

/-- The writes of `install_trans`, if the log blocks have the data `f` for the home blocks. -/
def homeWrites (f : Disk) (bs : List UInt32) : List (UInt32 × Block) := bs.map fun b => (b, f b)

theorem installTrans_eq (h : ∀ b ∈ bs, ∀ i, tail ≤ i → i < tail + bs.length → b ≠ log.slot i)
    (hf : ∀ i b, bs[i]? = some b → d.bread (log.slot (tail + i)) = f b) :
    installTrans log tail bs d = d.bwrites (homeWrites f bs) := by
  induction bs generalizing tail d with
  | nil => rfl
  | cons b bs ih =>
      simp only [List.length_cons] at h
      have h0 : d.bread (log.slot tail) = f b := by simpa using hf 0 b rfl
      rw [installTrans, ih]
      · rw [h0]; rfl
      · intro c hc i hi hlt
        exact h c (List.mem_cons_of_mem b hc) i (by omega) (by omega)
      · intro i c hc
        have hlt := (List.getElem?_eq_some_iff.mp hc).1
        have hne := h b List.mem_cons_self (tail + 1 + i) (by omega) (by omega)
        rw [Dev.bread_bwrite, Function.update_of_ne hne.symm, show tail + 1 + i = tail + (i + 1) by omega]
        exact hf (i + 1) c (by simpa using hc)

end Writes

/-! ## The states of the disk -/

variable {log : Log} {b : UInt32} {disk old new : Disk}

theorem Log.slot_eq (log : Log) (i : Nat) : log.slot i = log.start + .ofNat (i + 1) := by
  simp [Log.slot, UInt32.ofNat_add, UInt32.add_assoc]

theorem Log.slot_ne_start (h : i ≤ LOGSIZE) : log.slot i ≠ log.start := by
  rw [Log.slot_eq]
  intro he
  have : UInt32.ofNat (i + 1) = 0 := by simpa using he
  have := congrArg UInt32.toNat this
  simp only [UInt32.toNat_ofNat', UInt32.toNat_zero, LOGSIZE, MAXOPBLOCKS] at this h
  omega

theorem Log.slot_inj (hi : i ≤ LOGSIZE) (hj : j ≤ LOGSIZE) (h : log.slot i = log.slot j) : i = j := by
  rw [Log.slot_eq, Log.slot_eq] at h
  have : UInt32.ofNat (i + 1) = UInt32.ofNat (j + 1) := by simpa using h
  have := congrArg UInt32.toNat this
  simp only [UInt32.toNat_ofNat', LOGSIZE, MAXOPBLOCKS] at this hi hj
  omega

theorem Log.Outside.ne_start (h : log.Outside b) (hsize : 0 < log.size) : b ≠ log.start := by
  simpa using h 0 (by simpa using hsize)

theorem Log.Outside.ne_slot (h : log.Outside b) (hi : i + 1 < log.size) : b ≠ log.slot i := by
  rw [Log.slot_eq]; exact h (i + 1) (by omega)

namespace Log.Fits

variable (h : log.Fits)
include h

theorem lt_size (hi : i < log.lh.length) : (i : Int) + 1 < log.size := by
  have := h.size; omega

theorem size_pos : 0 < log.size := by
  have := h.size; omega

theorem ne_slot (hb : b ∈ log.lh) (hi : i < log.lh.length) : b ≠ log.slot i := (h.out b hb).ne_slot (h.lt_size hi)

theorem ne_start (hb : b ∈ log.lh) : b ≠ log.start := (h.out b hb).ne_start h.size_pos

theorem slot_ne_start (hi : i < log.lh.length) : log.slot i ≠ log.start :=
  Log.slot_ne_start (by have := h.logsize; omega)

theorem slotWrites_nodup (f : Disk) : ((slotWrites log f 0 log.lh).map Prod.fst).Nodup := by
  have hmap : (slotWrites log f 0 log.lh).map Prod.fst = (List.range log.lh.length).map log.slot := by
    rw [List.range_eq_range', ← List.zipIdx_map_snd 0 log.lh, slotWrites, List.map_map, List.map_map]
    rfl
  rw [hmap]
  apply List.Nodup.map_on _ List.nodup_range
  intro i hi j hj hij
  have := h.logsize
  exact Log.slot_inj (by simp at hi; omega) (by simp at hj; omega) hij

end Log.Fits

theorem mem_slotWrites {w : UInt32 × Block} (hw : w ∈ slotWrites log f 0 log.lh) :
    ∃ i, i < log.lh.length ∧ w.1 = log.slot i := by
  obtain ⟨p, hp, rfl⟩ := List.mem_map.mp hw
  exact ⟨p.2, by simpa using List.snd_lt_of_mem_zipIdx hp, rfl⟩

/-- No transaction is in the log, and the home blocks are as `f` says. -/
structure Settled (log : Log) (f disk : Disk) : Prop where
  empty : log.HeadEmpty disk
  home : log.Home disk f

/-- The transaction is in the log, and any of its blocks may have been installed. -/
structure Ready (log : Log) (old new disk : Disk) : Prop where
  head : IsHead (disk log.start) log.lh
  slots : ∀ i b, log.lh[i]? = some b → disk (log.slot i) = new b
  home : ∀ b, log.Outside b → b ∉ log.lh → disk b = old b

theorem Settled.write_slot (h : log.Fits) (hs : Settled log old disk) (hi : i < log.lh.length) (x : Block) :
    Settled log old (Function.update disk (log.slot i) x) where
  empty := by
    rw [Log.HeadEmpty, Function.update_of_ne (h.slot_ne_start hi).symm]; exact hs.empty
  home := by
    intro b hb
    rw [Function.update_of_ne (hb.ne_slot (h.lt_size hi))]; exact hs.home b hb

theorem Settled.ready (h : log.Fits) (hs : Settled log old disk)
    (hslots : ∀ i b, log.lh[i]? = some b → disk (log.slot i) = new b) (buf : Block) :
    Ready log old new (Function.update disk log.start (headBlock buf log.lh)) where
  head := by rw [Function.update_self]; exact isHead_headBlock buf h.logsize
  slots := by
    intro i b hi
    rw [Function.update_of_ne (h.slot_ne_start (List.getElem?_eq_some_iff.mp hi).1)]; exact hslots i b hi
  home := by
    intro b hb hmem
    rw [Function.update_of_ne (hb.ne_start h.size_pos)]; exact hs.home b hb

theorem Ready.install (h : log.Fits) (hr : Ready log old new disk) (hb : b ∈ log.lh) :
    Ready log old new (Function.update disk b (new b)) where
  head := by rw [Function.update_of_ne (h.ne_start hb).symm]; exact hr.head
  slots := by
    intro i c hi
    rw [Function.update_of_ne (h.ne_slot hb (List.getElem?_eq_some_iff.mp hi).1).symm]; exact hr.slots i c hi
  home := by
    intro c hc hmem
    rw [Function.update_of_ne (by rintro rfl; exact hmem hb)]; exact hr.home c hc hmem

/-- The contents of the home blocks with the transaction in place. -/
def Log.after (log : Log) (old new : Disk) : Disk := fun b => if b ∈ log.lh then new b else old b

theorem Settled.clear (h : log.Fits) (hhome : log.Home disk f) (buf : Block) :
    Settled log f (Function.update disk log.start (headBlock buf [])) where
  empty := by rw [Log.HeadEmpty, Function.update_self]; exact headBlock_nil buf
  home := by
    intro b hb
    rw [Function.update_of_ne (hb.ne_start h.size_pos)]; exact hhome b hb

theorem Ready.installed (hr : Ready log old new disk) (hnew : ∀ b ∈ log.lh, disk b = new b) :
    log.Home disk (log.after old new) := by
  intro b hb
  simp only [Log.after]
  split
  · exact hnew b ‹_›
  · exact hr.home b hb ‹_›

/-! ## The writes of a commit and of a recovery -/

section

variable (h : log.Fits)
include h

/-- From a disk with the transaction in the log, installing it and clearing the header. -/
theorem Ready.throughout (hr : Ready log old new disk) (buf : Block) :
    Throughout (fun d => Ready log old new d ∨ Settled log (log.after old new) d) disk
        (homeWrites new log.lh ++ [(log.start, headBlock buf [])]) ∧
      Settled log (log.after old new)
        (applyWrites disk (homeWrites new log.lh ++ [(log.start, headBlock buf [])])) := by
  have hinstall : Throughout (Ready log old new) disk (homeWrites new log.lh) := by
    apply throughout_of_write hr
    intro d hd w hw
    obtain ⟨b, hb, rfl⟩ := List.mem_map.mp hw
    exact hd.install h hb
  have hnodup : ((homeWrites new log.lh).map Prod.fst).Nodup := by
    simpa [homeWrites, Function.comp_def] using h.nodup
  have hhome : log.Home (applyWrites disk (homeWrites new log.lh)) (log.after old new) := by
    apply hinstall.last.installed
    intro b hb
    exact applyWrites_of_mem hnodup (List.mem_map.mpr ⟨b, hb, rfl⟩)
  have hclear := Settled.clear h hhome buf
  constructor
  · apply Throughout.append (hinstall.mono fun d hd => Or.inl hd)
    intro k
    cases k with
    | zero => exact .inl hinstall.last
    | succ k => exact .inr (by simpa using hclear)
  · rw [applyWrites_append]; exact hclear

theorem commit_eq (hne : log.lh ≠ []) (d : Dev) :
    ∃ buf buf', (commit log d).2 = d.bwrites (slotWrites log d.bread 0 log.lh ++
      (log.start, headBlock buf log.lh) :: (homeWrites d.bread log.lh ++ [(log.start, headBlock buf' [])])) := by
  have hslot : ∀ b ∈ log.lh, ∀ i, 0 ≤ i → i < 0 + log.lh.length → b ≠ log.slot i :=
    fun b hb i _ hi => h.ne_slot hb (by omega)
  simp only [commit, if_pos (List.length_pos_iff.mpr hne), writeLog_eq hslot, writeHead_eq]
  rw [installTrans_eq (f := d.bread) hslot]
  · have hassoc (x y : UInt32 × Block) (ws vs : List (UInt32 × Block)) :
        (((d.bwrites ws).bwrites [x]).bwrites vs).bwrites [y] = d.bwrites (ws ++ x :: (vs ++ [y])) := by
      simp [← Dev.bwrites_append]
    exact ⟨_, _, hassoc _ _ _ _⟩
  · intro i b hi
    have hlt := (List.getElem?_eq_some_iff.mp hi).1
    rw [← Dev.bwrites_append, Dev.bread_bwrites, applyWrites_append]
    simp only [applyWrites_cons, applyWrites_nil, Nat.zero_add]
    rw [Function.update_of_ne (h.slot_ne_start hlt)]
    apply applyWrites_of_mem (h.slotWrites_nodup d.bread)
    exact List.mem_map.mpr ⟨(b, i), List.mk_mem_zipIdx_iff_getElem?.mpr hi, rfl⟩

/-- After `commit` the transaction is in place. -/
theorem commit_home (d : Dev) : log.Home (commit log d).2.disk (log.after d.disk d.bread) := by
  intro b hb
  by_cases hne : log.lh = []
  · simp [commit, hne, Log.after]
  · obtain ⟨buf, buf', hd⟩ := commit_eq h hne d
    have hstart : b ≠ log.start := hb.ne_start h.size_pos
    have hslots : b ∉ (slotWrites log d.bread 0 log.lh).map Prod.fst := by
      intro hmem
      obtain ⟨w, hw, rfl⟩ := List.mem_map.mp hmem
      obtain ⟨i, hi, heq⟩ := mem_slotWrites hw
      exact hb.ne_slot (h.lt_size hi) heq
    have hfst : (homeWrites d.bread log.lh).map Prod.fst = log.lh := by simp [homeWrites, Function.comp_def]
    rw [hd, Dev.disk_bwrites, applyWrites_append, applyWrites_cons, applyWrites_append, applyWrites_cons, applyWrites_nil,
      Function.update_of_ne hstart, Log.after]
    split
    · rename_i hmem
      exact applyWrites_of_mem (by rw [hfst]; exact h.nodup) (List.mem_map.mpr ⟨b, hmem, rfl⟩)
    · rename_i hmem
      rw [applyWrites_of_notMem (by rwa [hfst]), Function.update_of_ne hstart, applyWrites_of_notMem hslots]

/-- What a crash in `commit` leaves: the old contents, or a transaction that recovery finds, or the new contents. The
old contents only as long as the header has not been written. -/
theorem commit_crash {cache : UInt32 → Option Block} (hs : Settled log disk disk) (k : Nat) :
    let d := (commit log ⟨disk, [], cache⟩).2
    let new := (⟨disk, [], cache⟩ : Dev).bread
    (Settled log disk (d.crash k) ∧ log.start ∉ (d.writes.take k).map Prod.fst) ∨
      Ready log disk new (d.crash k) ∨ Settled log (log.after disk new) (d.crash k) := by
  intro d new
  by_cases hne : log.lh = []
  · have hd : d = ⟨disk, [], cache⟩ := by simp [d, commit, hne]
    rw [hd]
    exact .inl (by simpa [Dev.crash] using hs)
  · obtain ⟨buf, buf', hd⟩ := commit_eq h hne ⟨disk, [], cache⟩
    have hslots : Throughout (Settled log disk) disk (slotWrites log new 0 log.lh) := by
      apply throughout_of_write hs
      intro d hd w hw
      obtain ⟨i, hi, heq⟩ := mem_slotWrites hw
      rw [heq]; exact hd.write_slot h hi _
    have hnew : ∀ i b, log.lh[i]? = some b →
        applyWrites disk (slotWrites log new 0 log.lh) (log.slot i) = new b := by
      intro i b hi
      apply applyWrites_of_mem (h.slotWrites_nodup new)
      exact List.mem_map.mpr ⟨(b, i), List.mk_mem_zipIdx_iff_getElem?.mpr hi, rfl⟩
    have hready := hslots.last.ready h hnew buf
    simp only [d, hd, Dev.crash, Dev.bwrites_base, Dev.bwrites_writes, List.nil_append]
    rw [List.take_append]
    rcases Nat.lt_or_ge (slotWrites log new 0 log.lh).length k with hk | hk
    · -- the header is written
      right
      obtain ⟨j, hj⟩ : ∃ j, k - (slotWrites log new 0 log.lh).length = j + 1 := Nat.exists_eq_add_one.mpr (by omega)
      rw [hj, List.take_of_length_le hk.le, List.take_succ_cons, applyWrites_append, applyWrites_cons]
      exact (hready.throughout h buf').1 j
    · left
      rw [Nat.sub_eq_zero_of_le hk, List.take_zero, List.append_nil]
      refine ⟨hslots k, fun hmem => ?_⟩
      obtain ⟨w, hw, heq⟩ := List.mem_map.mp hmem
      obtain ⟨i, hi, heq'⟩ := mem_slotWrites (List.mem_of_mem_take hw)
      exact h.slot_ne_start hi (heq' ▸ heq)

theorem initlog_settled (hs : Settled log f disk) :
    ∃ log' d, initlog log.start log.size disk = .ok (log', d) ∧ Settled log f d.disk ∧ ∀ k, Settled log f (d.crash k) := by
  have hhead : IsHead (disk log.start) [] := ⟨hs.empty, by simp⟩
  have hread := readHead_of_isHead ⟨log.start, log.size, 0, false, []⟩ (.boot disk) hhead (by simp)
  have hclear := Settled.clear h hs.home (disk log.start)
  refine ⟨_, _, by simp only [initlog, recoverFromLog, hread]; rfl, ?_, ?_⟩
  · exact hclear
  · intro k
    cases k with
    | zero => exact hs
    | succ k => simpa [Dev.crash, installTrans, writeHead_eq] using hclear

theorem initlog_ready (hr : Ready log old new disk) :
    ∃ log' d, initlog log.start log.size disk = .ok (log', d) ∧ Settled log (log.after old new) d.disk ∧
      ∀ k, Ready log old new (d.crash k) ∨ Settled log (log.after old new) (d.crash k) := by
  have hread := readHead_of_isHead ⟨log.start, log.size, 0, false, []⟩ (.boot disk) hr.head h.logsize
  have hinstall : installTrans ⟨log.start, log.size, 0, false, log.lh⟩ 0 log.lh (.boot disk) = _ :=
    installTrans_eq (f := new) (fun b hb i _ hi => h.ne_slot hb (by omega))
      (fun i b hi => by rw [Nat.zero_add]; exact hr.slots i b hi)
  refine ⟨_, _, by simp only [initlog, recoverFromLog, hread]; rfl, ?_⟩
  simp only [hinstall, writeHead_eq, ← Dev.bwrites_append]
  obtain ⟨hall, hlast⟩ := hr.throughout h (((Dev.boot disk).bwrites (homeWrites new log.lh)).bread log.start)
  constructor
  · simpa [Dev.disk] using hlast
  · intro k
    simpa [Dev.crash] using hall k

theorem initlogs_settled (ks : List Nat) (hs : Settled log f disk) :
    ∃ d, initlogs log.start log.size disk ks = .ok d ∧ Settled log f d := by
  induction ks generalizing disk with
  | nil => exact ⟨disk, rfl, hs⟩
  | cons k ks ih =>
      obtain ⟨log', d, hd, -, hcrash⟩ := initlog_settled h hs
      obtain ⟨d', hd', hs'⟩ := ih (hcrash k)
      exact ⟨d', by simp only [initlogs, hd]; exact hd', hs'⟩

theorem initlogs_ready (ks : List Nat) (hr : Ready log old new disk) :
    ∃ d, initlogs log.start log.size disk ks = .ok d ∧
      (Ready log old new d ∨ Settled log (log.after old new) d) := by
  induction ks generalizing disk with
  | nil => exact ⟨disk, rfl, .inl hr⟩
  | cons k ks ih =>
      obtain ⟨log', d, hd, -, hcrash⟩ := initlog_ready h hr
      rcases hcrash k with hk | hk
      · obtain ⟨d', hd', hs'⟩ := ih hk
        exact ⟨d', by simp only [initlogs, hd]; exact hd', hs'⟩
      · obtain ⟨d', hd', hs'⟩ := initlogs_settled h ks hk
        exact ⟨d', by simp only [initlogs, hd]; exact hd', .inr hs'⟩

/-- Any number of recoveries that crash, and one that does not. -/
theorem recovers_settled (ks : List Nat) (hs : Settled log f disk) :
    ∃ d log' d', initlogs log.start log.size disk ks = .ok d ∧ initlog log.start log.size d = .ok (log', d') ∧
      Settled log f d'.disk := by
  obtain ⟨d, hd, hs'⟩ := initlogs_settled h ks hs
  obtain ⟨log', d', hd', hlast, -⟩ := initlog_settled h hs'
  exact ⟨d, log', d', hd, hd', hlast⟩

theorem recovers_ready (ks : List Nat) (hr : Ready log old new disk) :
    ∃ d log' d', initlogs log.start log.size disk ks = .ok d ∧ initlog log.start log.size d = .ok (log', d') ∧
      Settled log (log.after old new) d'.disk := by
  obtain ⟨d, hd, hr' | hs'⟩ := initlogs_ready h ks hr
  · obtain ⟨log', d', hd', hlast, -⟩ := initlog_ready h hr'
    exact ⟨d, log', d', hd, hd', hlast⟩
  · obtain ⟨log', d', hd', hlast, -⟩ := initlog_settled h hs'
    exact ⟨d, log', d', hd, hd', hlast⟩

end

/-! ## What `log_write` collects -/

theorem logWrites_eq_ok {log' : Log} {bs : List UInt32} (h : logWrites log bs = .ok log') :
    log'.start = log.start ∧ log'.size = log.size ∧ (log.lh.Nodup → log'.lh.Nodup) ∧
      ∀ b, b ∈ log'.lh ↔ b ∈ bs ∨ b ∈ log.lh := by
  induction bs generalizing log with
  | nil => cases h; simp
  | cons c bs ih =>
      rw [logWrites, List.foldlM_cons] at h
      cases hw : logWrite log c with
      | error e => rw [hw] at h; cases h
      | ok log1 =>
          rw [hw] at h
          obtain ⟨-, -, -, rfl⟩ := logWrite_eq_ok hw
          obtain ⟨hstart, hsize, hnodup, hmem⟩ := ih h
          refine ⟨hstart, hsize, fun hn => hnodup (nodup_absorbed hn), fun b => ?_⟩
          rw [hmem, mem_absorbed, List.mem_cons, or_assoc, or_left_comm]

/-- A transaction goes on fitting: `log_write` stops the kernel where it would not. -/
theorem Log.Fits.logWrites {log' : Log} {bs : List UInt32} (h : log.Fits) (hbs : ∀ b ∈ bs, log.Outside b)
    (hrun : Fs.logWrites log bs = .ok log') : log'.Fits := by
  induction bs generalizing log with
  | nil => cases hrun; exact h
  | cons c bs ih =>
      rw [Fs.logWrites, List.foldlM_cons] at hrun
      cases hw : logWrite log c with
      | error e => rw [hw] at hrun; cases hrun
      | ok log1 =>
          rw [hw] at hrun
          obtain ⟨hlt, hsize, -, rfl⟩ := logWrite_eq_ok hw
          have hlen : (absorbed log.lh c).length ≤ log.lh.length + 1 := by
            unfold absorbed
            split <;> simp
          have hfits : Log.Fits { log with lh := absorbed log.lh c } := by
            refine ⟨nodup_absorbed h.nodup, by simp only; omega, by simp only; omega, fun b hb => ?_⟩
            rcases mem_absorbed.mp hb with rfl | hb
            · exact hbs _ List.mem_cons_self
            · exact h.out b hb
          exact ih hfits (fun b hb => hbs b (List.mem_cons_of_mem c hb)) hrun

end Xv6Net.Fs
