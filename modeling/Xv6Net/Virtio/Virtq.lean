import Xv6Net.Kernel.Kalloc

/-!
# Virtqueues and their descriptors (`kernel/virtio.h`, `kernel/virtio_net.c`)

`driver_area` is the available ring, written by the driver; `device_area` is the used ring, written by the
device. Both carry a 16-bit index that counts entries modulo 2^16. `used_idx` is the driver's own count of used
entries, a C `int`, whose arithmetic is exact as long as it is defined.
-/

namespace Xv6Net.Virtio

open Kernel

def NUM : Nat := 8
def VRING_DESC_F_NEXT : Nat := 1
def VRING_DESC_F_WRITE : Nat := 2

def HDR_SIZE : Nat := 10

structure VirtqDesc where
  addr : Nat
  len : Nat
  flags : Nat
  next : Nat
deriving DecidableEq, Repr

structure VirtqAvail where
  idx : UInt16
  ring : Nat → Nat

structure VirtqUsedElem where
  id : Nat
  len : Nat
deriving DecidableEq, Repr

structure VirtqUsed where
  idx : UInt16
  ring : Nat → VirtqUsedElem

structure Virtq where
  desc : Nat → VirtqDesc
  driverArea : VirtqAvail
  deviceArea : VirtqUsed
  free : Nat → Bool
  usedIdx : Nat

/-- A queue as `virtio_net_init` clears it: three zeroed pages and `memset(free, 1, NUM)`. -/
def Virtq.zero : Virtq where
  desc := fun _ => ⟨0, 0, 0, 0⟩
  driverArea := ⟨0, fun _ => 0⟩
  deviceArea := ⟨0, fun _ => ⟨0, 0⟩⟩
  free := fun i => decide (i < NUM)
  usedIdx := 0

/-- `alloc_desc`: the first free descriptor, or `none` for -1. -/
def allocDesc (q : Virtq) : Option Nat × Virtq :=
  match (List.range NUM).find? q.free with
  | some i => (some i, { q with free := Function.update q.free i false })
  | none => (none, q)

def Virtq.TwoFree (q : Virtq) : Prop := ∃ i j, i < j ∧ j < NUM ∧ q.free i = true ∧ q.free j = true

def freeDesc (q : Virtq) (i : Nat) : Except Stop Virtq :=
  if NUM ≤ i then .error (.panic "free_desc 1")
  else if q.free i then .error (.panic "free_desc 2")
  else .ok { q with
    desc := Function.update q.desc i ⟨0, 0, 0, 0⟩
    free := Function.update q.free i true }

/-- The ring write of a publication: `driver_area->ring[driver_area->idx % NUM] = head`. -/
def Virtq.setAvail (q : Virtq) (head : Nat) : Virtq :=
  { q with driverArea := { q.driverArea with
      ring := Function.update q.driverArea.ring (q.driverArea.idx.toNat % NUM) head } }

/-- `driver_area->idx++`, which makes the entry visible. -/
def Virtq.bumpAvail (q : Virtq) : Virtq :=
  { q with driverArea := { q.driverArea with idx := q.driverArea.idx + 1 } }

/-- The device pushes a used element: the ring write, then its 16-bit index plus one. -/
def Virtq.pushUsed (q : Virtq) (e : VirtqUsedElem) : Virtq :=
  { q with deviceArea :=
      { idx := q.deviceArea.idx + 1
        ring := Function.update q.deviceArea.ring (q.deviceArea.idx.toNat % NUM) e } }

/-! ## Indices that count modulo 2^16 -/

theorem toNat_ofNat_mod_NUM (n : Nat) : (UInt16.ofNat n).toNat % NUM = n % NUM := by
  simp only [UInt16.toNat_ofNat', NUM]; omega

theorem ofNat_succ16 (n : Nat) : UInt16.ofNat n + 1 = UInt16.ofNat (n + 1) := by
  apply UInt16.toNat_inj.mp
  simp [UInt16.toNat_add, UInt16.toNat_ofNat']

theorem toNat_ofNat_sub16 {m n : Nat} (hle : m ≤ n) (hlt : n < m + 65536) :
    (UInt16.ofNat n - UInt16.ofNat m).toNat = n - m := by
  simp only [UInt16.toNat_sub, UInt16.toNat_ofNat']; omega

/-! ## Descriptors -/

theorem allocDesc_least {q : Virtq} {i : Nat} (hi : i < NUM) (hf : q.free i = true)
    (hlt : ∀ j, j < i → q.free j = false) :
    allocDesc q = (some i, { q with free := Function.update q.free i false }) := by
  have h : (List.range NUM).find? q.free = some i :=
    List.find?_range_eq_some.mpr ⟨hf, by simpa using hi, fun j hj => by simp [hlt j hj]⟩
  simp [allocDesc, h]

/-- What `alloc_desc` returns was free and is no longer. -/
theorem allocDesc_eq_some {q q' : Virtq} {i : Nat} (h : allocDesc q = (some i, q')) :
    i < NUM ∧ q.free i = true ∧ q' = { q with free := Function.update q.free i false } := by
  unfold allocDesc at h
  split at h
  · rename_i j hj
    cases h
    exact ⟨by simpa using List.mem_of_find?_eq_some hj, by simpa using List.find?_some hj, rfl⟩
  · cases h

theorem allocDesc_eq_none {q q' : Virtq} (h : allocDesc q = (none, q')) :
    q' = q ∧ ∀ i, i < NUM → q.free i = false := by
  unfold allocDesc at h
  split at h
  · cases h
  · rename_i hn
    cases h
    refine ⟨rfl, fun i hi => ?_⟩
    have := List.find?_eq_none.mp hn i (by simpa using hi)
    simpa using this

theorem allocDesc_isSome_iff (q : Virtq) : (allocDesc q).1.isSome ↔ ∃ i < NUM, q.free i = true := by
  unfold allocDesc
  split
  · next i hi => simpa using ⟨i, List.mem_range.mp (List.mem_of_find?_eq_some hi), List.find?_some hi⟩
  · next hnone => simpa using hnone

theorem twoFree_iff (q : Virtq) : q.TwoFree ↔ (allocDesc q).1.isSome ∧ (allocDesc (allocDesc q).2).1.isSome := by
  rcases hq : allocDesc q with ⟨_ | i, q'⟩
  · obtain ⟨-, hnone⟩ := allocDesc_eq_none hq
    simp only [Option.isSome_none, Bool.false_eq_true, false_and, iff_false]
    rintro ⟨i, j, -, hj, -, hfree⟩
    rw [hnone j hj] at hfree
    cases hfree
  · obtain ⟨hi, hfree, rfl⟩ := allocDesc_eq_some hq
    simp only [Option.isSome_some, true_and, allocDesc_isSome_iff, Function.update_apply]
    constructor
    · rintro ⟨a, b, hab, hb, hfa, hfb⟩
      by_cases hia : b = i
      · exact ⟨a, by omega, by rw [if_neg (by omega)]; exact hfa⟩
      · exact ⟨b, hb, by rw [if_neg hia]; exact hfb⟩
    · rintro ⟨j, hj, hfj⟩
      split at hfj
      · cases hfj
      · next hne =>
        rcases Nat.lt_or_gt_of_ne hne with hlt | hgt
        · exact ⟨j, i, hlt, hi, hfj, hfree⟩
        · exact ⟨i, j, hgt, hj, hfree, hfj⟩

theorem freeDesc_of_taken {q : Virtq} {i : Nat} (hi : i < NUM) (hf : q.free i = false) :
    freeDesc q i = .ok { q with
      desc := Function.update q.desc i ⟨0, 0, 0, 0⟩
      free := Function.update q.free i true } := by
  have h1 : ¬ NUM ≤ i := by omega
  simp [freeDesc, h1, hf]

end Xv6Net.Virtio
