import Mathlib.Data.List.Induction
import Mathlib.Data.List.Nodup

/-!
# Maps with room for a number of keys

A map is the list of its entries in the order in which their keys came. A key that is there gets the new value. A new
key is added at the end if there is room, and nothing is done otherwise.
-/

namespace Xv6Net.Lib.BoundedMap

variable {κ ν : Type} [DecidableEq κ] {room : Bool} {cap : Nat} {k k' : κ} {v : ν} {m : List (κ × ν)}

abbrev keys (m : List (κ × ν)) : List κ := m.map Prod.fst

/-- `room` says whether another key can be added. -/
def put (room : Bool) (k : κ) (v : ν) : List (κ × ν) → List (κ × ν)
  | [] => if room then [(k, v)] else []
  | e :: m => if e.1 = k then (k, v) :: m else e :: put room k v m

def insert (cap : Nat) (m : List (κ × ν)) (e : κ × ν) : List (κ × ν) := put (decide (m.length < cap)) e.1 e.2 m

/-- The map after insertions in the given order. -/
def ofHistory (cap : Nat) (hist : List (κ × ν)) : List (κ × ν) := hist.foldl (insert cap) []

theorem keys_put : keys (put room k v m) = if k ∈ keys m ∨ room = false then keys m else keys m ++ [k] := by
  induction m with
  | nil => cases room <;> simp [put]
  | cons e m ih =>
      by_cases he : e.1 = k
      · simp [put, he]
      · have hne : k ≠ e.1 := fun h => he h.symm
        simp only [put, if_neg he, keys, List.map_cons, List.mem_cons, hne, false_or] at ih ⊢
        rw [ih]
        split <;> rfl

theorem lookup_put_self : (put room k v m).lookup k = if k ∈ keys m ∨ room = true then some v else none := by
  induction m with
  | nil => cases room <;> simp [put]
  | cons e m ih =>
      obtain ⟨a, b⟩ := e
      by_cases he : a = k
      · simp [put, he]
      · have hne : k ≠ a := fun h => he h.symm
        simp only [put, if_neg he, List.lookup_cons, beq_eq_false_iff_ne.mpr hne, ih, keys, List.map_cons, List.mem_cons, hne,
          false_or]

theorem lookup_put_of_ne (h : k' ≠ k) : (put room k v m).lookup k' = m.lookup k' := by
  have hbeq := beq_eq_false_iff_ne.mpr h
  induction m with
  | nil => cases room <;> simp [put, List.lookup_cons, hbeq]
  | cons e m ih =>
      obtain ⟨a, b⟩ := e
      by_cases he : a = k
      · simp only [put, he, if_true, List.lookup_cons, hbeq]
      · simp only [put, if_neg he, List.lookup_cons, ih]

theorem isSome_lookup : (m.lookup k).isSome ↔ k ∈ keys m := by
  rw [Option.isSome_iff_ne_none, Ne, List.lookup_eq_none_iff]
  simp [keys]

theorem nodup_keys_insert (h : (keys m).Nodup) (cap : Nat) (e : κ × ν) : (keys (insert cap m e)).Nodup := by
  rw [insert, keys_put]
  split
  · exact h
  · next hnew =>
    exact List.Nodup.append h (List.nodup_singleton _) (List.disjoint_singleton.mpr (not_or.mp hnew).1)

/-! ## Histories -/

theorem ofHistory_concat (cap : Nat) (hist : List (κ × ν)) (e : κ × ν) :
    ofHistory cap (hist ++ [e]) = insert cap (ofHistory cap hist) e := by
  simp [ofHistory]

theorem eraseDups_concat (l : List κ) (a : κ) :
    (l ++ [a]).eraseDups = if a ∈ l then l.eraseDups else l.eraseDups ++ [a] := by
  rw [List.eraseDups_append]
  by_cases ha : a ∈ l <;> simp [List.removeAll, List.eraseDups_cons, ha]

theorem nodup_keys_ofHistory (cap : Nat) (hist : List (κ × ν)) : (keys (ofHistory cap hist)).Nodup := by
  induction hist using List.reverseRecOn with
  | nil => exact List.nodup_nil
  | append_singleton hist e ih =>
      rw [ofHistory_concat]
      exact nodup_keys_insert ih cap e

/-- The keys that are in the map are the first ones that came. -/
theorem keys_ofHistory (cap : Nat) (hist : List (κ × ν)) :
    keys (ofHistory cap hist) = (keys hist).eraseDups.take cap := by
  induction hist using List.reverseRecOn with
  | nil => simp [ofHistory]
  | append_singleton hist e ih =>
      have hlen : (ofHistory cap hist).length = min cap (keys hist).eraseDups.length := by
        rw [← List.length_take, ← ih, List.length_map]
      have hkeys : keys (hist ++ [e]) = keys hist ++ [e.1] := List.map_append
      rw [ofHistory_concat, insert, keys_put, ih, hlen, hkeys, eraseDups_concat]
      generalize hD : (keys hist).eraseDups = D
      have hmem : e.1 ∈ keys hist ↔ e.1 ∈ D := by rw [← hD, List.mem_eraseDups]
      simp only [hmem]
      by_cases hroom : D.length < cap
      · have htake : D.take cap = D := List.take_of_length_le (Nat.le_of_lt hroom)
        have hall : (D ++ [e.1]).take cap = D ++ [e.1] := List.take_of_length_le (by rw [List.length_append]; exact hroom)
        have hmin : min cap D.length < cap := by omega
        by_cases he : e.1 ∈ D <;> simp [htake, hall, he, hmin]
      · -- the keys that came first fill the map already
        have hfull : ¬ min cap D.length < cap := by omega
        have htake : (D ++ [e.1]).take cap = D.take cap := List.take_append_of_le_length (by omega)
        by_cases he : e.1 ∈ D <;> simp [htake, he, hfull]

/-- The value of a key that is in the map is the last one that came with it. -/
theorem lookup_ofHistory {hist : List (κ × ν)} (h : (ofHistory cap hist).lookup k = some v) :
    hist.reverse.lookup k = some v := by
  induction hist using List.reverseRecOn with
  | nil => simp [ofHistory] at h
  | append_singleton hist e ih =>
      obtain ⟨a, b⟩ := e
      rw [ofHistory_concat, insert] at h
      rw [List.reverse_append, List.reverse_singleton, List.singleton_append, List.lookup_cons]
      by_cases hk : k = a
      · subst hk
        rw [lookup_put_self] at h
        split at h
        · simpa using h
        · cases h
      · rw [lookup_put_of_ne hk] at h
        simpa [beq_eq_false_iff_ne.mpr hk] using ih h

end Xv6Net.Lib.BoundedMap
