import Mathlib.Data.List.Basic
import Mathlib.Data.Nat.Bitwise

/-!
# Bytes in memory

A buffer that was cleared before it was filled is the list of the bytes written to it: what lies behind reads as 0.
A page that was not cleared is a map from offsets to bytes. Words are stored with the low byte first.
-/

namespace Xv6Net.Lib

/-- The byte at offset `i` of a cleared buffer. -/
def byteAt (b : List UInt8) (i : Nat) : UInt8 := b.getD i 0

def load16 (b : List UInt8) (i : Nat) : UInt16 := .ofNat ((byteAt b i).toNat + 256 * (byteAt b (i + 1)).toNat)

def load32 (b : List UInt8) (i : Nat) : UInt32 :=
  .ofNat ((load16 b i).toNat + 65536 * (load16 b (i + 2)).toNat)

def bytes16 (x : UInt16) : List UInt8 := [.ofNat x.toNat, .ofNat (x.toNat / 256)]

def bytes32 (x : UInt32) : List UInt8 := bytes16 (.ofNat x.toNat) ++ bytes16 (.ofNat (x.toNat / 65536))

/-- The 16-bit number at offset `i` in network order. -/
def be16 (b : List UInt8) (i : Nat) : Nat := 256 * (byteAt b i).toNat + (byteAt b (i + 1)).toNat

@[simp] theorem length_bytes16 (x : UInt16) : (bytes16 x).length = 2 := rfl

@[simp] theorem length_bytes32 (x : UInt32) : (bytes32 x).length = 4 := rfl

theorem load16_bytes16 (x : UInt16) :
    UInt16.ofNat ((UInt8.ofNat x.toNat).toNat + 256 * (UInt8.ofNat (x.toNat / 256)).toNat) = x := by
  have hx := x.toNat_lt
  apply UInt16.toNat_inj.mp
  simp only [UInt8.toNat_ofNat', UInt16.toNat_ofNat']; omega

theorem byteAt_append_right (a b : List UInt8) (i : Nat) : byteAt (a ++ b) (a.length + i) = byteAt b i := by
  simp only [byteAt, List.getD_eq_getElem?_getD, List.getElem?_append_right (Nat.le_add_right ..),
    Nat.add_sub_cancel_left]

theorem load16_append_right (a b : List UInt8) (i : Nat) : load16 (a ++ b) (a.length + i) = load16 b i := by
  simp only [load16, Nat.add_assoc, byteAt_append_right]

theorem load16_append_bytes16 (a : List UInt8) (x : UInt16) (rest : List UInt8) :
    load16 (a ++ (bytes16 x ++ rest)) a.length = x := by
  have := load16_append_right a (bytes16 x ++ rest) 0
  exact this.trans (load16_bytes16 x)

theorem load32_append_bytes32 (a : List UInt8) (x : UInt32) (rest : List UInt8) :
    load32 (a ++ (bytes32 x ++ rest)) a.length = x := by
  have hx := x.toNat_lt
  have hlo := load16_append_bytes16 a (.ofNat x.toNat) (bytes16 (.ofNat (x.toNat / 65536)) ++ rest)
  have hhi := load16_append_bytes16 (a ++ bytes16 (.ofNat x.toNat)) (.ofNat (x.toNat / 65536)) rest
  simp only [List.append_assoc, List.length_append, length_bytes16] at hlo hhi
  apply UInt32.toNat_inj.mp
  simp only [load32, bytes32, List.append_assoc, hlo, hhi, UInt16.toNat_ofNat', UInt32.toNat_ofNat']
  omega

theorem byteAt_append_left {a : List UInt8} (b : List UInt8) {i : Nat} (h : i < a.length) :
    byteAt (a ++ b) i = byteAt a i := by
  simp only [byteAt, List.getD_eq_getElem?_getD, List.getElem?_append_left h]

theorem byteAt_drop (b : List UInt8) (n i : Nat) : byteAt (b.drop n) i = byteAt b (n + i) := by
  simp only [byteAt, List.getD_eq_getElem?_getD, List.getElem?_drop]

theorem byteAt_take {b : List UInt8} {n i : Nat} (hi : i < n) : byteAt (b.take n) i = byteAt b i := by
  simp only [byteAt, List.getD_eq_getElem?_getD, List.getElem?_take_of_lt hi]

theorem getElem?_eq_byteAt {b : List UInt8} {i : Nat} (hi : i < b.length) : b[i]? = some (byteAt b i) := by
  simp [byteAt, hi]

/-! ## Pages -/

/-- The page with the bytes `bs` stored from offset `off` on. -/
def write (m : Nat → UInt8) (off : Nat) (bs : List UInt8) : Nat → UInt8 :=
  fun i => if off ≤ i then (bs[i - off]?).getD (m i) else m i

def slice (m : Nat → UInt8) (off n : Nat) : List UInt8 := (List.range n).map fun i => m (off + i)

@[simp] theorem length_slice (m : Nat → UInt8) (off n : Nat) : (slice m off n).length = n := by simp [slice]

theorem slice_add (m : Nat → UInt8) (off a b : Nat) : slice m off (a + b) = slice m off a ++ slice m (off + a) b := by
  simp only [slice, List.range_add, List.map_append, List.map_map, Function.comp_def, Nat.add_assoc]

theorem slice_congr {m m' : Nat → UInt8} {off off' n : Nat} (h : ∀ i < n, m' (off' + i) = m (off + i)) :
    slice m' off' n = slice m off n :=
  List.map_congr_left fun i hi => h i (List.mem_range.mp hi)

theorem take_drop_slice (m : Nat → UInt8) (s off n : Nat) :
    ((slice m 0 s).drop off).take n = slice m off (min n (s - off)) := by
  apply List.ext_getElem
  · simp
  · intro i h h'
    simp [slice]

theorem byteAt_slice {m : Nat → UInt8} {off n i : Nat} (h : i < n) : byteAt (slice m off n) i = m (off + i) := by
  rw [byteAt, List.getD_eq_getElem?_getD, slice, List.getElem?_map, List.getElem?_range h]
  rfl

theorem slice_byteAt {b : List UInt8} {off n : Nat} (h : off + n ≤ b.length) : slice (byteAt b) off n = (b.drop off).take n := by
  apply List.ext_getElem
  · simp; omega
  · intro i hi hi'
    simp only [length_slice] at hi
    simp [slice, byteAt, show off + i < b.length by omega]

theorem slice_write_self (m : Nat → UInt8) (off : Nat) (bs : List UInt8) :
    slice (write m off bs) off bs.length = bs := by
  apply List.ext_getElem?
  intro i
  by_cases hi : i < bs.length
  · simp [slice, write, hi]
  · rw [List.getElem?_eq_none (by simp; omega), List.getElem?_eq_none (by omega)]

theorem slice_write_self' {m : Nat → UInt8} {off n : Nat} {bs : List UInt8} (h : bs.length = n) :
    slice (write m off bs) off n = bs := by
  rw [← h]; exact slice_write_self m off bs

/-- A store leaves every range alone that it does not meet. -/
theorem slice_write_of_disjoint {m : Nat → UInt8} {off n o : Nat} {bs : List UInt8}
    (h : off + n ≤ o ∨ o + bs.length ≤ off) : slice (write m o bs) off n = slice m off n := by
  apply List.map_congr_left
  intro i hi
  have hi := List.mem_range.mp hi
  unfold write
  split
  · rw [List.getElem?_eq_none (by omega)]; rfl
  · rfl

/-- The bytes `b` with `bs` in place of those from `off` on, behind the end as well. -/
def splice (b : List UInt8) (off : Nat) (bs : List UInt8) : List UInt8 := b.take off ++ bs ++ b.drop (off + bs.length)

theorem splice_nil (b : List UInt8) (off : Nat) : splice b off [] = b := by
  simp [splice]

theorem splice_length (b bs : List UInt8) : splice b b.length bs = b ++ bs := by
  simp [splice]

theorem length_splice {b bs : List UInt8} {off : Nat} (hoff : off ≤ b.length) :
    (splice b off bs).length = max b.length (off + bs.length) := by
  simp [splice]; omega

theorem byteAt_splice_of_ge {b bs : List UInt8} {off i : Nat} (hoff : off ≤ b.length) (hi : off + bs.length ≤ i) :
    byteAt (splice b off bs) i = byteAt b i := by
  have hlen : (b.take off ++ bs).length = off + bs.length := by simp [hoff]
  rw [splice, show i = (b.take off ++ bs).length + (i - (off + bs.length)) by omega, byteAt_append_right, byteAt_drop, hlen]

theorem take_drop_splice_of_le {b bs : List UInt8} {off o n : Nat} (hoff : off ≤ b.length) (h : o + n ≤ off) :
    ((splice b off bs).drop o).take n = (b.drop o).take n := by
  have hlen : (b.take off).length = off := by
    rw [List.length_take]; omega
  rw [splice, List.append_assoc, List.drop_append_of_le_length (by omega),
    List.take_append_of_le_length (by rw [List.length_drop]; omega), List.drop_take, List.take_take,
    Nat.min_eq_left (by omega)]

theorem drop_splice_of_ge {b bs : List UInt8} {off o : Nat} (hoff : off ≤ b.length) (h : off + bs.length ≤ o) :
    (splice b off bs).drop o = b.drop o := by
  have hlen : (b.take off ++ bs).length = off + bs.length := by simp [hoff]
  rw [splice, List.drop_append, List.drop_of_length_le (by omega), List.nil_append, hlen, List.drop_drop,
    Nat.add_sub_cancel' h]

theorem slice_splice {m m' : Nat → UInt8} {size off : Nat} {bs : List UInt8} (hoff : off ≤ size)
    (hkeep : ∀ k < size, ¬ (off ≤ k ∧ k < off + bs.length) → m' k = m k)
    (hnew : ∀ k < bs.length, m' (off + k) = byteAt bs k) :
    slice m' 0 (max size (off + bs.length)) = splice (slice m 0 size) off bs := by
  have hsplit : max size (off + bs.length) = off + bs.length + (size - (off + bs.length)) := by omega
  rw [hsplit, slice_add, slice_add, splice]
  refine congrArg₂ (· ++ ·) (congrArg₂ (· ++ ·) ?_ ?_) ?_
  · have htake := take_drop_slice m size 0 off
    rw [List.drop_zero, Nat.sub_zero, Nat.min_eq_left hoff] at htake
    rw [htake]
    exact slice_congr fun i hi => hkeep _ (by omega) (by omega)
  · have hbs : slice (byteAt bs) 0 bs.length = bs := by
      rw [slice_byteAt (by omega), List.drop_zero, List.take_length]
    refine (slice_congr fun i hi => ?_).trans hbs
    rw [Nat.zero_add, Nat.zero_add, hnew i hi]
  · have hdrop := take_drop_slice m size (off + bs.length) (size - (off + bs.length))
    rw [Nat.min_self, List.take_of_length_le (by simp)] at hdrop
    rw [hdrop]
    exact slice_congr fun i hi => by rw [Nat.zero_add]; exact hkeep _ (by omega) (by omega)

end Xv6Net.Lib
