import Xv6Net.Lib.Labels
import Xv6Net.Net.Names

/-!
# What `node_to_dns` stores

The loop is followed from one label to the next. The byte for the length of a label is stored behind its characters.
-/

namespace Xv6Net.Net

open Kernel Lib

variable {i lenIndex : Nat} {res : Nat → Option UInt8} {l s : List UInt8}

theorem strlenFrom_eq (i : Nat) (s : List UInt8) : strlenFrom i s = i + s.length := by
  induction s generalizing i with
  | nil => rfl
  | cons c s ih => rw [strlenFrom, ih, List.length_cons, Nat.add_right_comm, Nat.add_assoc]

theorem myStrlen_eq (string : CString) : myStrlen string = string.chars.length := by
  rw [myStrlen, strlenFrom_eq, Nat.zero_add]

/-! ## One label -/

theorem nodeLoop_long (h : i - lenIndex = 64) (s : List UInt8) {resIndex : Nat} :
    (nodeLoop i resIndex lenIndex res s).1 = false := by
  cases s with
  | nil => simp [nodeLoop, h]
  | cons c s => simp [nodeLoop, h]

/-- The characters of a label are stored one place behind that in the name. -/
theorem nodeLoop_label (hdot : DOT ∉ l) (hlen : i - lenIndex + l.length ≤ 64) (hle : lenIndex ≤ i) (s : List UInt8) :
    nodeLoop i (i + 1) lenIndex res (l ++ s) =
      nodeLoop (i + l.length) (i + l.length + 1) lenIndex (putBytes res (i + 1) l) s := by
  induction l generalizing i res with
  | nil => rfl
  | cons c l ih =>
      simp only [List.length_cons] at hlen ⊢
      have hc : c ≠ DOT := fun h => hdot (h ▸ List.mem_cons_self)
      rw [List.cons_append, nodeLoop, if_neg (by omega), if_neg hc,
        ih (fun h => hdot (List.mem_cons_of_mem c h)) (by omega) (by omega), putBytes]
      rw [show i + (l.length + 1) = i + 1 + l.length by omega]

theorem nodeLoop_fails (hdot : DOT ∉ l) (hlen : 64 ≤ l.length) (s : List UInt8) :
    (nodeLoop i (i + 1) i res (l ++ s)).1 = false := by
  have htake : (l.take 64).length = 64 := by
    rw [List.length_take]
    omega
  rw [← List.take_append_drop 64 l, List.append_assoc,
    nodeLoop_label (fun h => hdot (List.mem_of_mem_take h)) (by omega) (Nat.le_refl i)]
  exact nodeLoop_long (by omega) _

/-! ## All labels -/

/-- From the start of a label on. -/
theorem nodeLoop_labels (h : ∀ l ∈ s.splitOn DOT, l.length ≤ 63) :
    nodeLoop i (i + 1) i res s = (true, putBytes res i (wire (s.splitOn DOT))) := by
  induction s using field_induction DOT generalizing i res with
  | last f hf =>
      rw [List.splitOn_eq_singleton hf] at h ⊢
      have hlen := h f List.mem_cons_self
      have hlabel := @nodeLoop_label i i res f hf (by omega) (Nat.le_refl i) []
      rw [List.append_nil] at hlabel
      rw [hlabel, nodeLoop, if_neg (by omega), update_putBytes (Nat.lt_succ_self i), Nat.add_sub_cancel_left]
      simp [putBytes]
  | cons f s hf ih =>
      rw [List.splitOn_append_cons_self_of_not_mem hf] at h ⊢
      obtain ⟨hlen, hs⟩ := List.forall_mem_cons.mp h
      rw [nodeLoop_label hf (by omega) (Nat.le_refl i), nodeLoop, if_neg (by omega), if_pos rfl,
        update_putBytes (Nat.lt_succ_self i), Nat.add_sub_cancel_left, ih hs, wire_cons, putBytes, putBytes_append,
        Nat.add_right_comm]

theorem nodeLoop_fails_of_mem (hl : l ∈ s.splitOn DOT) (hlen : 64 ≤ l.length) : (nodeLoop i (i + 1) i res s).1 = false := by
  induction s using field_induction DOT generalizing i res with
  | last f hf =>
      rw [List.splitOn_eq_singleton hf, List.mem_singleton] at hl
      have := @nodeLoop_fails i res f hf (hl ▸ hlen) []
      rwa [List.append_nil] at this
  | cons f s hf ih =>
      rw [List.splitOn_append_cons_self_of_not_mem hf, List.mem_cons] at hl
      by_cases hlong : 64 ≤ f.length
      · exact nodeLoop_fails hf hlong _
      · rw [nodeLoop_label hf (by omega) (Nat.le_refl i), nodeLoop, if_neg (by omega), if_pos rfl]
        apply ih
        exact hl.resolve_left fun h => hlong (h ▸ hlen)

/-! ## The whole call -/

variable {name : CString}

theorem nodeToDns_long (h : 253 < name.chars.length) : (nodeToDns name).1 = LONG_DOMAIN := by
  simp only [nodeToDns, myStrlen_eq, if_pos h]

theorem nodeToDns_section (h : name.chars.length ≤ 253) (hl : l ∈ name.chars.splitOn DOT) (hlen : 63 < l.length) :
    (nodeToDns name).1 = LONG_DOMAIN_SECTION := by
  have hloop := @nodeLoop_fails_of_mem 0 (fun _ => none) _ _ hl hlen
  simp only [nodeToDns, myStrlen_eq, if_neg (Nat.not_lt.mpr h)]
  split
  · rfl
  · rename_i heq
    rw [heq] at hloop
    cases hloop

theorem nodeToDns_ok (h : name.chars.length ≤ 253) (hlen : ∀ l ∈ name.chars.splitOn DOT, l.length ≤ 63) :
    nodeToDns name = (0, putBytes (fun _ => none) 0 (wire (name.chars.splitOn DOT) ++ [0])) := by
  have hloop := @nodeLoop_labels 0 (fun _ => none) _ hlen
  simp only [nodeToDns, myStrlen_eq, if_neg (Nat.not_lt.mpr h), hloop, putBytes_append, length_wire_splitOn, Nat.zero_add, putBytes]

end Xv6Net.Net
