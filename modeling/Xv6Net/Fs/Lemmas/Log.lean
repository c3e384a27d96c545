import Mathlib.Algebra.Order.BigOperators.Group.List
import Mathlib.Algebra.Order.Ring.Nat
import Xv6Net.Fs.Log

/-!
# What the log admits

The blocks in the log are those that operations called `log_write` on, each one once. `begin_op` leaves enough of the
`LOGSIZE` entries for what the operations may still add.
-/

namespace Xv6Net.Fs

open Kernel Lib

variable {log log' : Log} {b : UInt32} {lh : List UInt32} {op : Nat}

/-! ## The functions -/

theorem beginOp_eq_some (h : beginOp log = some log') :
    log.committing = false ∧ log.lh.length + (log.outstanding + 1) * MAXOPBLOCKS ≤ LOGSIZE ∧
      log' = { log with outstanding := log.outstanding + 1 } := by
  simp only [beginOp] at h
  split at h
  · simp at h
  · rename_i hc
    split at h
    · simp at h
    · rename_i hn
      cases h
      exact ⟨by simpa using hc, Int.not_lt.mp hn, rfl⟩

theorem endOp_eq_ok {doCommit : Bool} (h : endOp log = .ok (doCommit, log')) :
    log.committing = false ∧
      log' = { log with outstanding := log.outstanding - 1, committing := decide (log.outstanding - 1 = 0) } := by
  simp only [endOp] at h
  split at h
  · simp at h
  · rename_i hc
    split at h <;> rename_i h0 <;> cases h <;> simp_all

/-- What `log_write` adds to the list. -/
def absorbed (lh : List UInt32) (b : UInt32) : List UInt32 := if b ∈ lh then lh else lh ++ [b]

theorem set_findIdx_self (h : b ∈ lh) : lh.set (lh.findIdx (· == b)) b = lh := by
  have hlt : lh.findIdx (· == b) < lh.length := List.findIdx_lt_length.mpr ⟨b, h, by simp⟩
  have hget : lh[lh.findIdx (· == b)] = b := by simpa using List.findIdx_getElem (w := hlt)
  nth_rewrite 2 [← hget]
  exact List.set_getElem_self hlt

theorem logWrite_eq (log : Log) (b : UInt32) :
    logWrite log b =
      if log.lh.length ≥ LOGSIZE ∨ log.lh.length ≥ log.size - 1 then .error (.panic "too big a transaction")
      else if log.outstanding < 1 then .error (.panic "log_write outside of trans")
      else .ok { log with lh := absorbed log.lh b } := by
  simp only [logWrite, absorbed]
  by_cases hb : b ∈ log.lh
  · have hlt : log.lh.findIdx (· == b) < log.lh.length := List.findIdx_lt_length.mpr ⟨b, hb, by simp⟩
    simp [hb, hlt.ne, set_findIdx_self hb]
  · have hlen : log.lh.findIdx (· == b) = log.lh.length := by simpa using fun x hx (h : x = b) => hb (h ▸ hx)
    simp [hb, hlen]

theorem logWrite_eq_ok (h : logWrite log b = .ok log') :
    log.lh.length < LOGSIZE ∧ log.lh.length < log.size - 1 ∧ 1 ≤ log.outstanding ∧
      log' = { log with lh := absorbed log.lh b } := by
  rw [logWrite_eq] at h
  split at h
  · simp at h
  · split at h
    · simp at h
    · cases h
      rename_i hn ho
      simp only [not_or, Nat.not_le, Int.not_le, not_lt] at hn ho
      exact ⟨hn.1, hn.2, ho, rfl⟩

theorem mem_absorbed {a : UInt32} : a ∈ absorbed lh b ↔ a = b ∨ a ∈ lh := by
  simp only [absorbed]
  split
  · rename_i hb
    exact ⟨.inr, fun h => h.elim (fun h => h ▸ hb) id⟩
  · simp [or_comm]

theorem nodup_absorbed (h : lh.Nodup) : (absorbed lh b).Nodup := by
  simp only [absorbed]
  split
  · exact h
  · rename_i hb
    exact List.nodup_append.mpr ⟨h, by simp, by rintro x hx y hy rfl; simp_all⟩

theorem commit_log (log : Log) (d : Dev) : (commit log d).1 = { log with lh := [] } := by
  simp only [commit]
  split
  · rfl
  · rename_i h
    obtain h := List.length_eq_zero_iff.mp (Nat.eq_zero_of_not_pos h)
    cases log; simp_all

/-! ## The operations -/

theorem sum_map_set {α : Type} (f : α → Nat) {l : List α} {i : Nat} {a x : α} (h : l[i]? = some a) :
    ((l.set i x).map f).sum + f a = (l.map f).sum + f x := by
  induction l generalizing i with
  | nil => simp at h
  | cons y l ih =>
      cases i with
      | zero => simp at h; subst h; simp; omega
      | succ i =>
          have := ih h
          simp only [List.set_cons_succ, List.map_cons, List.sum_cons]; omega

structure LogInv (s : LogSys) : Prop where
  size : s.log.size = nlog
  outstanding : s.log.outstanding = s.ops.length
  nodup : s.log.lh.Nodup
  mem : ∀ b, b ∈ s.log.lh ↔ b ∈ s.logged
  sub : ∀ S ∈ s.ops, S ⊆ s.logged
  room : s.log.lh.length + s.allowance ≤ LOGSIZE
  inside : s.log.lh.length ≤ nlog - 1
  alone : s.log.committing = true → s.ops = []

variable {s t : LogSys}

theorem LogInv.start : LogInv .start where
  size := rfl
  outstanding := rfl
  nodup := List.nodup_nil
  mem := by simp [LogSys.start]
  sub := by simp [LogSys.start]
  room := by simp [LogSys.start, LogSys.allowance]
  inside := by simp [LogSys.start]
  alone := by simp [LogSys.start]

section

variable (h : LogInv s)
include h

theorem LogInv.card : s.logged.card = s.log.lh.length := by
  have : s.logged = s.log.lh.toFinset := by ext b; simp [h.mem]
  rw [this, List.toFinset_card_of_nodup h.nodup]

theorem LogInv.beginOp (hb : beginOp s.log = some log') :
    LogInv { s with log := log', ops := s.ops ++ [∅] } := by
  obtain ⟨hc, hn, rfl⟩ := beginOp_eq_some hb
  have hle : s.allowance ≤ s.ops.length * MAXOPBLOCKS := by
    have := List.sum_le_card_nsmul (s.ops.map fun S => MAXOPBLOCKS - S.card) MAXOPBLOCKS (by simp)
    simpa [LogSys.allowance] using this
  have hout := h.outstanding
  exact {
    size := h.size
    outstanding := by simp [hout]
    nodup := h.nodup
    mem := h.mem
    sub := by
      intro S hS
      rcases List.mem_append.mp hS with hS | hS
      · exact h.sub S hS
      · simp at hS; simp [hS]
    room := by
      simp only [LogSys.allowance, List.map_append, List.sum_append, MAXOPBLOCKS, LOGSIZE] at hle hn ⊢
      simp
      omega
    inside := h.inside
    alone := by simp [hc] }

theorem LogInv.logWrite {S : Finset UInt32} (hS : s.ops[op]? = some S)
    (hcard : (insert b S).card ≤ MAXOPBLOCKS) (hw : logWrite s.log b = .ok log') :
    LogInv ⟨log', s.ops.set op (insert b S), insert b s.logged⟩ := by
  obtain ⟨-, hsize, -, rfl⟩ := logWrite_eq_ok hw
  have hmem : S ∈ s.ops := List.mem_of_getElem? hS
  have hsum := sum_map_set (fun S => MAXOPBLOCKS - S.card) (x := insert b S) hS
  have hroom := h.room
  have hinside := h.inside
  rw [h.size] at hsize
  exact {
    size := h.size
    outstanding := by simpa using h.outstanding
    nodup := nodup_absorbed h.nodup
    mem := by intro a; simp [mem_absorbed, h.mem]
    sub := by
      intro T hT
      rcases List.mem_or_eq_of_mem_set hT with hT | rfl
      · exact (h.sub T hT).trans (Finset.subset_insert b _)
      · exact Finset.insert_subset_insert b (h.sub S hmem)
    room := by
      simp only [LogSys.allowance] at hroom ⊢
      have hle : S.card ≤ (insert b S).card := Finset.card_le_card (Finset.subset_insert b S)
      simp only [absorbed]
      split
      · omega
      · -- a block that is new in the log is new to the operation
        rename_i hb
        have : b ∉ S := fun hbS => hb ((h.mem b).mpr (h.sub S hmem hbS))
        rw [Finset.card_insert_of_notMem this] at hsum hcard
        rw [List.length_append, List.length_singleton]
        omega
    inside := by
      simp only [absorbed]
      split
      · exact hinside
      · rw [List.length_append, List.length_singleton]; omega
    alone := by
      intro hc
      have := h.alone hc
      simp [this] at hmem }

theorem LogInv.endOp {S : Finset UInt32} {doCommit : Bool} (hS : s.ops[op]? = some S)
    (he : endOp s.log = .ok (doCommit, log')) : LogInv { s with log := log', ops := s.ops.eraseIdx op } := by
  obtain ⟨hc, rfl⟩ := endOp_eq_ok he
  have hlt : op < s.ops.length := (List.getElem?_eq_some_iff.mp hS).1
  have hlen := List.length_eraseIdx_of_lt hlt
  have hout := h.outstanding
  have hsub := List.eraseIdx_sublist s.ops op
  exact {
    size := h.size
    outstanding := by simp only [hlen, hout]; omega
    nodup := h.nodup
    mem := h.mem
    sub := fun T hT => h.sub T (hsub.subset hT)
    room := by
      have hle : ((s.ops.eraseIdx op).map fun S => MAXOPBLOCKS - S.card).sum ≤ s.allowance :=
        (hsub.map _).sum_le_sum (by simp)
      exact (Nat.add_le_add_left hle _).trans h.room
    inside := h.inside
    alone := by
      intro hz
      simp only [decide_eq_true_eq] at hz
      exact List.length_eq_zero_iff.mp (by simp only [hlen]; omega) }

theorem LogInv.commit (hc : s.log.committing = true) :
    LogInv { s with log := { s.log with lh := [] }, logged := ∅ } := by
  have hops := h.alone hc
  exact {
    size := h.size
    outstanding := h.outstanding
    nodup := List.nodup_nil
    mem := by simp
    sub := by simp [hops]
    room := by simp [LogSys.allowance, hops]
    inside := by simp
    alone := h.alone }

theorem LogInv.step {a : LogAct} (hs : logStep s a = some t) : LogInv t := by
  cases a with
  | beginOp =>
      obtain ⟨log', hb, rfl⟩ := Option.map_eq_some_iff.mp hs
      exact h.beginOp hb
  | logWrite op b =>
      simp only [logStep] at hs
      split at hs
      · simp at hs
      · rename_i S hS
        split at hs
        · rename_i hcard
          split at hs
          · simp at hs
          · rename_i log' hw
            cases hs
            exact h.logWrite hS hcard hw
        · simp at hs
  | endOp op =>
      simp only [logStep] at hs
      split at hs
      · rename_i S doCommit log' hS he
        cases hs
        exact h.endOp hS he
      · simp at hs
  | commit d =>
      simp only [logStep, commit_log] at hs
      split at hs
      · rename_i hc
        cases hs
        exact h.commit hc
      · simp at hs
  | committed =>
      simp only [logStep] at hs
      split at hs
      · rename_i hc
        cases hs
        exact ⟨h.size, h.outstanding, h.nodup, h.mem, h.sub, h.room, h.inside, by simp⟩
      · simp at hs

theorem LogInv.ownSlots : s.OwnSlots := by
  refine ⟨h.nodup, fun b hb => ?_⟩
  obtain ⟨i, hi⟩ := List.getElem?_of_mem ((h.mem b).mpr hb)
  have hlt := (List.getElem?_eq_some_iff.mp hi).1
  have hin := h.inside
  exact ⟨i, hi, by omega⟩

theorem LogInv.logWrite_iff (hmay : s.MayLog op b) :
    (∃ log', Fs.logWrite s.log b = .ok log') ↔ s.logged.card < nlog - 1 := by
  obtain ⟨S, hS, -⟩ := hmay
  have hlt := (List.getElem?_eq_some_iff.mp hS).1
  have hout := h.outstanding
  rw [h.card]
  constructor
  · rintro ⟨log', hw⟩
    obtain ⟨-, hsize, -⟩ := logWrite_eq_ok hw
    rw [h.size] at hsize
    omega
  · intro hlt'
    have hn : nlog = LOGSIZE := rfl
    refine ⟨{ s.log with lh := absorbed s.log.lh b }, ?_⟩
    rw [logWrite_eq, if_neg, if_neg]
    · omega
    · rw [h.size]; omega

end

end Xv6Net.Fs
