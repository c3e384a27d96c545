import Mathlib.Logic.Function.Basic
import Xv6Net.Lib.Dotted

/-!
# Labels with their lengths

Labels are written one after the other, each behind a byte with its length, and a zero byte ends them. What is stored in a
buffer is known by index.
-/

namespace Xv6Net.Lib

variable {ls : List (List UInt8)} {m : Nat → Option UInt8} {off : Nat}

def wire (ls : List (List UInt8)) : List UInt8 := ls.flatMap fun l => .ofNat l.length :: l

/-- The labels up to a zero byte, of which there are less than `fuel`, and what is behind it. -/
def unwireFrom : (fuel : Nat) → List UInt8 → Option (List (List UInt8) × List UInt8)
  | 0, _ | _, [] => none
  | fuel + 1, n :: bs =>
      if n = 0 then some ([], bs)
      else if n.toNat ≤ bs.length then
        (unwireFrom fuel (bs.drop n.toNat)).map fun r => (bs.take n.toNat :: r.1, r.2)
      else none

/-- A length byte and as many characters, until a zero byte. -/
def unwire (bs : List UInt8) : Option (List (List UInt8) × List UInt8) := unwireFrom bs.length bs

@[simp] theorem wire_nil : wire [] = [] := rfl

@[simp] theorem wire_cons (l : List UInt8) (ls : List (List UInt8)) : wire (l :: ls) = .ofNat l.length :: (l ++ wire ls) :=
  List.flatMap_cons

theorem unwireFrom_wire (h : ∀ l ∈ ls, l ≠ [] ∧ l.length < 256) (rest : List UInt8) {fuel : Nat} (hfuel : ls.length < fuel) :
    unwireFrom fuel (wire ls ++ 0 :: rest) = some (ls, rest) := by
  induction ls generalizing fuel with
  | nil =>
      obtain ⟨fuel, rfl⟩ := Nat.exists_eq_succ_of_ne_zero (Nat.ne_of_gt hfuel)
      simp [unwireFrom]
  | cons l ls ih =>
      obtain ⟨fuel, rfl⟩ := Nat.exists_eq_succ_of_ne_zero (Nat.ne_of_gt (Nat.zero_lt_of_lt hfuel))
      obtain ⟨⟨hne, hlt⟩, hls⟩ := List.forall_mem_cons.mp h
      have hlen : (UInt8.ofNat l.length).toNat = l.length := UInt8.toNat_ofNat_of_lt' hlt
      have hzero : UInt8.ofNat l.length ≠ 0 := by
        intro h0
        rw [h0] at hlen
        exact hne (List.length_eq_zero_iff.mp hlen.symm)
      have hrest : unwireFrom fuel (wire ls ++ 0 :: rest) = some (ls, rest) := ih hls (by simpa using hfuel)
      simp [unwireFrom, hzero, hlen, hrest]

theorem length_le_length_wire (ls : List (List UInt8)) : ls.length ≤ (wire ls).length := by
  induction ls with
  | nil => exact Nat.le_refl 0
  | cons l ls ih =>
      simp only [wire_cons, List.length_cons, List.length_append]
      omega

theorem unwire_wire (h : ∀ l ∈ ls, l ≠ [] ∧ l.length < 256) (rest : List UInt8) :
    unwire (wire ls ++ 0 :: rest) = some (ls, rest) := by
  apply unwireFrom_wire h
  have := length_le_length_wire ls
  simp only [List.length_append, List.length_cons]
  omega

/-- The fields of a text take a byte each in addition, and the separators are gone. -/
theorem length_wire_splitOn (s : List UInt8) : (wire (s.splitOn DOT)).length = s.length + 1 := by
  induction s using field_induction DOT with
  | last f hf => simp [List.splitOn_eq_singleton hf]
  | cons f s hf ih =>
      rw [List.splitOn_append_cons_self_of_not_mem hf, wire_cons, List.length_cons, List.length_append, ih]
      simp

/-! ## Stores -/

/-- The bytes `bs` stored from `off` on. -/
def putBytes (m : Nat → Option UInt8) (off : Nat) : List UInt8 → Nat → Option UInt8
  | [] => m
  | b :: bs => putBytes (Function.update m off (some b)) (off + 1) bs

theorem putBytes_append (m : Nat → Option UInt8) (off : Nat) (bs cs : List UInt8) :
    putBytes m off (bs ++ cs) = putBytes (putBytes m off bs) (off + bs.length) cs := by
  induction bs generalizing m off with
  | nil => rfl
  | cons b bs ih => rw [List.cons_append, putBytes, putBytes, ih, List.length_cons, Nat.add_assoc, Nat.add_comm 1]

/-- A store before the others may come after them. -/
theorem update_putBytes {i : Nat} (h : i < off) (b : UInt8) (bs : List UInt8) :
    Function.update (putBytes m off bs) i (some b) = putBytes (Function.update m i (some b)) off bs := by
  induction bs generalizing m off with
  | nil => rfl
  | cons c bs ih => rw [putBytes, putBytes, ih (Nat.lt_succ_of_lt h), Function.update_comm (Nat.ne_of_lt h)]

theorem putBytes_of_lt {j : Nat} (h : j < off) (bs : List UInt8) : putBytes m off bs j = m j := by
  induction bs generalizing m off with
  | nil => rfl
  | cons b bs ih => rw [putBytes, ih (Nat.lt_succ_of_lt h), Function.update_of_ne (Nat.ne_of_lt h)]

/-- The bytes in a buffer to which nothing else was stored. -/
theorem putBytes_add (hm : ∀ k, off ≤ k → m k = none) (bs : List UInt8) (j : Nat) : putBytes m off bs (off + j) = bs[j]? := by
  induction bs generalizing m off j with
  | nil => exact hm _ (Nat.le_add_right ..)
  | cons b bs ih =>
      cases j with
      | zero => rw [Nat.add_zero, putBytes, putBytes_of_lt (Nat.lt_succ_self off), Function.update_self, List.getElem?_cons_zero]
      | succ j =>
          have hnext : ∀ k, off + 1 ≤ k → Function.update m off (some b) k = none := by
            intro k hk
            rw [Function.update_of_ne (Nat.ne_of_gt hk), hm k (Nat.le_of_lt hk)]
          rw [putBytes, ← Nat.add_assoc, Nat.add_right_comm, ih hnext, List.getElem?_cons_succ]

end Xv6Net.Lib
