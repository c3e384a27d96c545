import Mathlib.Data.Fintype.Card
import Mathlib.Data.List.FinRange
import Mathlib.Tactic.Common
import Xv6Net.Fs.Bio

/-!
# Invariants of the buffer cache

Buffers start with the same block number, so that block 0 of device 0 may be in several buffers. The one in use is the
first of them in the list, where `bget` finds it: a buffer that no one has used yet never moves.
-/

namespace Xv6Net.Fs

open Kernel Lib

variable {c d : Bcache} {order : List (Fin NBUF)} {i j : Fin NBUF} {b : Buf}

@[simp] theorem Bcache.set_self (c : Bcache) (i : Fin NBUF) (b : Buf) : (c.set i b).buf i = b := by
  simp [Bcache.set]

@[simp] theorem Bcache.set_of_ne (b : Buf) (h : j ≠ i) : (c.set i b).buf j = c.buf j := by
  simp [Bcache.set, h]

@[simp] theorem Bcache.set_links (c : Bcache) (i : Fin NBUF) (b : Buf) : (c.set i b).links = c.links := rfl

/-! ## Finding a buffer -/

/-- The first buffer in the list with block `key`. -/
def Bcache.first (c : Bcache) (order : List (Fin NBUF)) (key : UInt32 × UInt32) : Option (Fin NBUF) :=
  order.find? fun i => (c.buf i).key == key

/-- What `bget` finds or takes. -/
theorem bget_eq_ok {dev blockno : UInt32} (hl : c.links.IsList order) (h : bget c dev blockno = .ok (i, d)) :
    (c.first order (dev, blockno) = some i ∧ d = bpin c i) ∨
      (c.first order (dev, blockno) = none ∧ (c.buf i).refcnt = 0 ∧
        d = c.set i { c.buf i with dev := dev, blockno := blockno, valid := false, refcnt := 1 }) := by
  have hlen : order.length < NBUF + 1 := by
    have := hl.nodup.length_le_card
    simp at this
    omega
  have hfirst : search c.links.next (fun i => (c.buf i).dev == dev && (c.buf i).blockno == blockno) (NBUF + 1)
      (c.links.next none) = c.first order (dev, blockno) := by
    rw [hl.chain.path_next.search_eq _ hlen]; rfl
  simp only [bget, hfirst] at h
  split at h
  · rename_i k hk
    cases h
    exact .inl ⟨hk, rfl⟩
  · rename_i hnone
    split at h
    · rename_i k hk
      cases h
      rw [hl.chain.path_prev.search_eq _ (by simpa using hlen)] at hk
      have := List.find?_some hk
      exact .inr ⟨hnone, by simpa using this, rfl⟩
    · cases h

/-! ## The used buffers come first -/

def Bcache.Firsts (c : Bcache) (order : List (Fin NBUF)) : Prop :=
  ∀ i, (c.buf i).Used → c.first order (c.buf i).key = some i

theorem Bcache.Firsts.coherent (h : c.Firsts order) : c.Coherent := by
  intro i j hi hj hkey
  have := h i hi
  rw [hkey, h j hj] at this
  exact (Option.some.inj this).symm

theorem Bcache.first_congr (hkey : ∀ j, (d.buf j).key = (c.buf j).key) (key : UInt32 × UInt32) :
    d.first order key = c.first order key := by
  simp [Bcache.first, hkey]

/-- No block number changes, and only the first buffer with its block comes into use. -/
theorem Bcache.Firsts.congr (h : c.Firsts order) (hkey : ∀ j, (d.buf j).key = (c.buf j).key)
    (hused : ∀ j, (d.buf j).Used → (c.buf j).Used ∨ c.first order (c.buf j).key = some j) : d.Firsts order := by
  intro j hj
  rw [Bcache.first_congr hkey, hkey]
  rcases hused j hj with hj | hj
  · exact h j hj
  · exact hj

theorem Bcache.key_set (hb : b.key = (c.buf i).key) (j : Fin NBUF) : ((c.set i b).buf j).key = (c.buf j).key := by
  by_cases hj : j = i
  · subst hj; simpa using hb
  · simp [hj]

theorem Bcache.Firsts.set (h : c.Firsts order) (hb : b.key = (c.buf i).key)
    (hi : (c.buf i).Used ∨ c.first order (c.buf i).key = some i) : (c.set i b).Firsts order := by
  apply h.congr (Bcache.key_set hb)
  intro j hj
  by_cases hji : j = i
  · subst hji; exact hi
  · exact .inl (by simpa [hji] using hj)

section Find

variable {α : Type} {p q : α → Bool} {l : List α} {a x : α}

theorem find?_eq_of_unique (hmem : a ∈ l) (hp : p a = true) (huniq : ∀ x ∈ l, p x = true → x = a) :
    l.find? p = some a := by
  cases h : l.find? p with
  | none => exact absurd hp (List.find?_eq_none.mp h a hmem)
  | some x => rw [huniq x (List.mem_of_find?_eq_some h) (List.find?_some h)]

theorem find?_of_imp (h : l.find? p = some a) (hq : q a = true) (himp : ∀ x, q x = true → p x = true) :
    l.find? q = some a := by
  obtain ⟨-, as, bs, rfl, has⟩ := List.find?_eq_some_iff_append.mp h
  refine List.find?_eq_some_iff_append.mpr ⟨hq, as, bs, rfl, fun x hx => ?_⟩
  have hpx := has x hx
  cases hqx : q x with
  | false => rfl
  | true => rw [himp x hqx] at hpx; cases hpx

theorem find?_erase [DecidableEq α] (hx : p x = false) : (l.erase x).find? p = l.find? p := by
  induction l with
  | nil => rfl
  | cons y l ih =>
      by_cases hy : y = x
      · subst hy; simp [hx]
      · rw [List.erase_cons_tail (by simpa using hy), List.find?_cons, List.find?_cons, ih]

end Find

/-- A buffer is taken for a block that no buffer has. -/
theorem Bcache.Firsts.recycle (h : c.Firsts order) (hmem : ∀ j, j ∈ order) (hnone : c.first order b.key = none) :
    (c.set i b).Firsts order := by
  have hother (j : Fin NBUF) : (c.buf j).key ≠ b.key := by
    simpa using List.find?_eq_none.mp hnone j (hmem j)
  intro j hj
  by_cases hji : j = i
  · subst hji
    apply find?_eq_of_unique (hmem j) (by simp)
    intro x _ hx
    by_contra hxj
    exact hother x (by simpa [hxj] using hx)
  · rw [Bcache.set_of_ne b hji] at hj ⊢
    apply find?_of_imp (h j hj) (by simp [hji])
    intro x hx
    have hxi : x ≠ i := by
      rintro rfl
      exact hother j (by simpa using (beq_iff_eq.mp hx).symm)
    simpa [hxi] using hx

/-- A buffer in use is moved to the front. -/
theorem Bcache.Firsts.toFront (h : c.Firsts order) (hi : (c.buf i).Used) : c.Firsts (i :: order.erase i) := by
  intro j hj
  rw [Bcache.first, List.find?_cons]
  cases hkey : (c.buf i).key == (c.buf j).key with
  | true => simp only [h.coherent i j hi hj (beq_iff_eq.mp hkey)]
  | false =>
      refine Eq.trans (find?_erase ?_) (h j hj)
      exact hkey

/-! ## The invariant -/

structure BioInv (s : BioSys) (order : List (Fin NBUF)) : Prop where
  isList : s.cache.links.IsList order
  all : ∀ i, i ∈ order
  firsts : s.cache.Firsts order
  keys : ∀ u ∈ s.refs, (s.cache.buf u.buf).key = (u.dev, u.blockno)
  count : ∀ i, (s.cache.buf i).refcnt.toNat = s.refs.countP (·.buf = i)

theorem binit_isList : binit.links.IsList (List.finRange NBUF).reverse := by
  have := Links.isList_empty.pushFronts (l := List.finRange NBUF) (by simpa using List.nodup_finRange NBUF)
  rwa [List.append_nil] at this

variable {s t : BioSys} {u v : BufRef} {r : Nat}

theorem BioInv.start : BioInv .start (List.finRange NBUF).reverse where
  isList := binit_isList
  all := by simp
  firsts := by
    intro i hi
    simp [BioSys.start, binit, Buf.Used] at hi
  keys := by simp [BioSys.start]
  count := by simp [BioSys.start, binit]

theorem BioSys.ref_eq_some {kind : RefKind} (h : s.ref r kind = some u) : s.refs[r]? = some u ∧ u.kind = kind := by
  simpa [BioSys.ref, Option.filter_eq_some_iff] using h

namespace BioInv

variable (h : BioInv s order)
include h

theorem used (hu : u ∈ s.refs) : (s.cache.buf u.buf).refcnt ≠ 0 := by
  intro h0
  have hcount := h.count u.buf
  rw [h0, UInt32.toNat_zero] at hcount
  have := List.countP_eq_zero.mp hcount.symm u hu
  simp at this

theorem sameBuffer : s.SameBuffer := by
  refine ⟨h.keys, fun u hu v hv hdev hblockno => ?_⟩
  apply h.firsts.coherent u.buf v.buf (.inr (h.used hu)) (.inr (h.used hv))
  rw [h.keys u hu, h.keys v hv, hdev, hblockno]

end BioInv

/-! ## The steps -/

/-- Buffers with references keep their block, and the data of it. -/
def Bcache.Keeps (c d : Bcache) : Prop :=
  ∀ i, (c.buf i).refcnt ≠ 0 → (d.buf i).key = (c.buf i).key ∧ ((c.buf i).valid = true → (d.buf i).valid = true)

theorem Bcache.keeps_set (hb : (c.buf i).refcnt ≠ 0 → b.key = (c.buf i).key ∧ ((c.buf i).valid = true → b.valid = true)) :
    c.Keeps (c.set i b) := by
  intro j hj
  by_cases hji : j = i
  · subst hji; simpa using hb hj
  · simp [hji]

theorem toNat_add_one {x : UInt32} (h : x + 1 ≠ 0) : (x + 1).toNat = x.toNat + 1 := by
  have hne : (x + 1).toNat ≠ 0 := fun h0 => h (UInt32.toNat_inj.mp h0)
  have hlt := x.toNat_lt
  simp only [UInt32.toNat_add, UInt32.toNat_one] at hne ⊢
  omega

theorem toNat_sub_one {x : UInt32} (h : x ≠ 0) : (x - 1).toNat = x.toNat - 1 := by
  have hne : x.toNat ≠ 0 := fun h0 => h (UInt32.toNat_inj.mp h0)
  have hlt := x.toNat_lt
  simp only [UInt32.toNat_sub, UInt32.toNat_one]
  omega

theorem countP_eraseIdx {α : Type} {l : List α} {a : α} (p : α → Bool) (h : l[r]? = some a) :
    (l.eraseIdx r).countP p + (if p a then 1 else 0) = l.countP p := by
  obtain ⟨hlt, rfl⟩ := List.getElem?_eq_some_iff.mp h
  rw [← List.countP_cons, (List.getElem_cons_eraseIdx_perm hlt).countP_eq]

theorem countP_set_of_eq {α : Type} {l : List α} {a x : α} {p : α → Bool} (h : l[r]? = some a) (hp : p x = p a) :
    (l.set r x).countP p = l.countP p := by
  induction l generalizing r with
  | nil => rfl
  | cons y l ih =>
      cases r with
      | zero => obtain rfl : y = a := by simpa using h
                simp [List.countP_cons, hp]
      | succ r => simp [List.countP_cons, ih (by simpa using h)]

namespace BioInv

variable (h : BioInv s order)
include h

/-- A reference goes on, and its buffer keeps the block and the count. -/
theorem relabel (hu : s.refs[r]? = some u) (kind : RefKind) (hkey : b.key = (s.cache.buf u.buf).key)
    (hcnt : b.refcnt = (s.cache.buf u.buf).refcnt) :
    BioInv ⟨s.cache.set u.buf b, s.refs.set r { u with kind := kind }⟩ order where
  isList := h.isList
  all := h.all
  firsts := h.firsts.set hkey (.inl (.inr (h.used (List.mem_of_getElem? hu))))
  keys := by
    intro v hv
    rw [Bcache.key_set hkey]
    rcases List.mem_or_eq_of_mem_set hv with hv | rfl
    · exact h.keys v hv
    · exact h.keys u (List.mem_of_getElem? hu)
  count := by
    intro i
    rw [countP_set_of_eq hu (by rfl), ← h.count i]
    by_cases hi : i = u.buf
    · subst hi; simp [hcnt]
    · simp [hi]

/-- A reference to the first buffer with a block is added. -/
theorem take (hu : s.cache.first order (u.dev, u.blockno) = some u.buf)
    (hwrap : ((bpin s.cache u.buf).buf u.buf).refcnt ≠ 0) : BioInv ⟨bpin s.cache u.buf, s.refs ++ [u]⟩ order := by
  have hkey : (s.cache.buf u.buf).key = (u.dev, u.blockno) := by simpa using List.find?_some hu
  exact {
    isList := h.isList
    all := h.all
    firsts := h.firsts.set rfl (.inr (by rw [hkey]; exact hu))
    keys := by
      intro v hv
      rw [bpin, Bcache.key_set (by rfl)]
      rcases List.mem_append.mp hv with hv | hv
      · exact h.keys v hv
      · rw [List.mem_singleton.mp hv]; exact hkey
    count := by
      intro i
      have hcount := h.count i
      rw [List.countP_append, ← hcount]
      by_cases hi : i = u.buf
      · subst hi
        simpa [bpin] using toNat_add_one (by simpa [bpin] using hwrap)
      · simp [bpin, hi, Ne.symm hi] }

/-- A buffer without references is taken for a block that no buffer has. -/
theorem recycle {dev blockno : UInt32} {kind : RefKind} (hnone : s.cache.first order (dev, blockno) = none)
    (hfree : (s.cache.buf i).refcnt = 0) :
    BioInv ⟨s.cache.set i { s.cache.buf i with dev := dev, blockno := blockno, valid := false, refcnt := 1 },
      s.refs ++ [⟨i, dev, blockno, kind⟩]⟩ order where
  isList := h.isList
  all := h.all
  firsts := h.firsts.recycle h.all hnone
  keys := by
    intro v hv
    rcases List.mem_append.mp hv with hold | hnew
    · have hvi : v.buf ≠ i := fun hi => h.used hold (hi ▸ hfree)
      simpa [hvi] using h.keys v hold
    · rw [List.mem_singleton.mp hnew]; simp [Buf.key]
  count := by
    intro j
    have hcount := h.count j
    rw [List.countP_append, ← hcount]
    by_cases hj : j = i
    · subst hj; simp [hfree]
    · simp [hj, Ne.symm hj]

/-- A reference is removed. -/
theorem drop (hu : s.refs[r]? = some u) : BioInv ⟨bunpin s.cache u.buf, s.refs.eraseIdx r⟩ order where
  isList := h.isList
  all := h.all
  firsts := h.firsts.set rfl (.inl (.inr (h.used (List.mem_of_getElem? hu))))
  keys := by
    intro v hv
    rw [bunpin, Bcache.key_set (by rfl)]
    exact h.keys v (List.mem_of_mem_eraseIdx hv)
  count := by
    intro i
    have hcount := h.count i
    have herase := countP_eraseIdx (fun v : BufRef => decide (v.buf = i)) hu
    by_cases hi : i = u.buf
    · subst hi
      have := toNat_sub_one (h.used (List.mem_of_getElem? hu))
      simp only [decide_true, if_true] at herase
      simp only [bunpin, Bcache.set_self]
      omega
    · simp only [decide_eq_true_eq, Ne.symm hi, if_false] at herase
      simp only [bunpin, Bcache.set_of_ne _ hi]
      omega

theorem release (hu : s.refs[r]? = some u) :
    ∃ order', BioInv ⟨brelse s.cache u.buf, s.refs.eraseIdx r⟩ order' := by
  have hdrop := h.drop hu
  have hused : (s.cache.buf u.buf).Used := .inr (h.used (List.mem_of_getElem? hu))
  simp only [brelse]
  split
  · refine ⟨u.buf :: order.erase u.buf, ?_⟩
    exact {
      isList := h.isList.toFront (h.all u.buf)
      all := by
        intro i
        by_cases hi : i = u.buf
        · simp [hi]
        · exact List.mem_cons_of_mem _ ((List.mem_erase_of_ne hi).mpr (h.all i))
      firsts := (h.firsts.toFront hused).set rfl (.inl hused)
      keys := hdrop.keys
      count := hdrop.count }
  · exact ⟨order, hdrop⟩

end BioInv

theorem brelse_buf (c : Bcache) (i : Fin NBUF) : (brelse c i).buf = (bunpin c i).buf := by
  simp only [brelse]
  split <;> rfl

/-- What a step keeps. -/
theorem BioInv.step {a : BioAct} (h : BioInv s order) (hs : bioStep s a = some t) :
    (∃ order', BioInv t order') ∧ s.cache.Keeps t.cache := by
  cases a with
  | bget dev blockno =>
      simp only [bioStep] at hs
      split at hs
      · cases hs
      · rename_i i c hget
        split at hs
        · cases hs
        · rename_i hwrap
          cases hs
          rcases bget_eq_ok h.isList hget with ⟨hfirst, rfl⟩ | ⟨hnone, hfree, rfl⟩
          · exact ⟨⟨order, h.take (u := ⟨i, dev, blockno, .waiting⟩) hfirst hwrap⟩,
              Bcache.keeps_set fun _ => ⟨rfl, id⟩⟩
          · exact ⟨⟨order, h.recycle hnone hfree⟩, Bcache.keeps_set fun hne => absurd hfree hne⟩
  | acquiresleep r =>
      obtain ⟨u, hu, hs⟩ := Option.bind_eq_some_iff.mp hs
      dsimp only at hs
      split at hs
      · cases hs
      · cases hs
        exact ⟨⟨order, h.relabel (BioSys.ref_eq_some hu).1 .locked rfl rfl⟩, Bcache.keeps_set fun _ => ⟨rfl, id⟩⟩
  | fill r =>
      obtain ⟨u, hu, hs⟩ := Option.bind_eq_some_iff.mp hs
      cases hs
      refine ⟨⟨order, h.relabel (BioSys.ref_eq_some hu).1 .holding ?_ ?_⟩, Bcache.keeps_set fun _ => ?_⟩
      all_goals split <;> simp_all [Buf.key]
  | releasesleep r =>
      obtain ⟨u, hu, hs⟩ := Option.bind_eq_some_iff.mp hs
      cases hs
      exact ⟨⟨order, h.relabel (BioSys.ref_eq_some hu).1 .releasing rfl rfl⟩, Bcache.keeps_set fun _ => ⟨rfl, id⟩⟩
  | brelse r =>
      obtain ⟨u, hu, hs⟩ := Option.bind_eq_some_iff.mp hs
      cases hs
      have hkeeps : s.cache.Keeps (bunpin s.cache u.buf) := Bcache.keeps_set fun _ => ⟨rfl, id⟩
      refine ⟨h.release (BioSys.ref_eq_some hu).1, fun i hi => ?_⟩
      rw [brelse_buf]
      exact hkeeps i hi
  | bpin r =>
      obtain ⟨u, hu, hs⟩ := Option.bind_eq_some_iff.mp hs
      have hmem := List.mem_of_getElem? (BioSys.ref_eq_some hu).1
      dsimp only at hs
      split at hs
      · cases hs
      · rename_i hwrap
        cases hs
        have hfirst := h.firsts u.buf (.inr (h.used hmem))
        rw [h.keys u hmem] at hfirst
        exact ⟨⟨order, h.take (u := { u with kind := .pinned }) hfirst hwrap⟩, Bcache.keeps_set fun _ => ⟨rfl, id⟩⟩
  | bunpin r =>
      obtain ⟨u, hu, hs⟩ := Option.bind_eq_some_iff.mp hs
      cases hs
      exact ⟨⟨order, h.drop (BioSys.ref_eq_some hu).1⟩, Bcache.keeps_set fun _ => ⟨rfl, id⟩⟩

theorem BioInv.listed (h : BioInv s order) : s.cache.Listed :=
  ⟨order, h.isList.nodup, h.all, h.isList.chain.path_next, h.isList.chain.path_prev⟩

end Xv6Net.Fs
