import Xv6Net.Kernel.Kalloc
import Xv6Net.Lib.Run

/-!
# The allocator called by many CPUs

`kmem.lock` is held for one section by `kalloc` and `add_page_reference` and for two by `kfree`: the first takes a
reference away, the second links the page. Between them the page is filled with junk, without the lock, and any
other CPU may run a section.
-/

namespace Xv6Net.Kernel

/-- `kfree` up to the first `release`. The result is whether it goes on to link the page. -/
def kfreeDrop (k : Kmem) (pa : Nat) : Except Stop (Bool × Kmem) :=
  if pa % PGSIZE ≠ 0 ∨ pa < k.kend ∨ PHYSTOP ≤ pa then .error (.panic "kfree")
  else if 1 < k.refCounter (pageNum pa) then
    .ok (false, { k with
      refCounter := Function.update k.refCounter (pageNum pa) (k.refCounter (pageNum pa) - 1) })
  else .ok (true, { k with refCounter := Function.update k.refCounter (pageNum pa) 0 })

instance (k : Kmem) (p : Nat) : Decidable (k.Ram p) :=
  inferInstanceAs (Decidable (p % PGSIZE = 0 ∧ k.kend ≤ p ∧ p < PHYSTOP))

/-- The second section of `kfree`, for a page that has passed its check. -/
def linkPage (k : Kmem) (pa : Nat) : Kmem :=
  if h : k.Ram pa then
    { k with
      freelist := pa :: k.freelist
      valid := fun _ hp => (List.mem_cons.mp hp).elim (fun he => he ▸ h) (k.valid _) }
  else k

/-- With nothing in between, the two sections are `kfree`. -/
theorem kfree_eq_sections (k : Kmem) (pa : Nat) :
    kfree k pa = (kfreeDrop k pa).map fun r => if r.1 then linkPage r.2 pa else r.2 := by
  unfold kfree kfreeDrop
  split
  · rfl
  · rename_i hv
    have hram : k.Ram pa := by unfold Kmem.Ram; omega
    split
    · rfl
    · simp only [Except.map, ↓reduceIte, linkPage]
      split
      · rfl
      · exact absurd hram ‹_›

/-- What was done to a page since `kalloc` last returned it. -/
structure Loan where
  adds : Nat
  frees : Nat
deriving DecidableEq, Repr

/-- One reference is left for `kalloc` and for each `add_page_reference` until a `kfree` takes it. -/
def Loan.Open (l : Loan) : Prop := l.frees < 1 + l.adds

instance (l : Loan) : Decidable l.Open := inferInstanceAs (Decidable (l.frees < 1 + l.adds))

-- Where a CPU stands; `linking` is between the two sections of `kfree`.
inductive AllocPc where
  | idle
  | linking (pa : Nat)
  | panicked (e : Stop)
deriving DecidableEq, Repr

structure AllocSys where
  kmem : Kmem
  -- by CPU
  pc : Nat → AllocPc
  -- by page: what was called, not what the counts say
  loans : Nat → Option Loan

def AllocSys.boot (kmem : Kmem) : AllocSys := ⟨kmem, fun _ => .idle, fun _ => none⟩

/-- The page is allocated: references are left. -/
def AllocSys.Allocated (s : AllocSys) (p : Nat) : Prop := ∃ l, s.loans p = some l ∧ l.Open

/-- The page is inside a `kfree` call, between its two sections. -/
def AllocSys.Linking (s : AllocSys) (p : Nat) : Prop := ∃ c, s.pc c = .linking p

/-- One more call for the page, if references to it are left. -/
def AllocSys.onLoan (s : AllocSys) (p : Nat) (f : Loan → Loan) : Option AllocSys :=
  match s.loans p with
  | some l => if l.Open then some { s with loans := Function.update s.loans p (some (f l)) } else none
  | none => none

inductive AllocAct where
  | kalloc (c : Nat)
  | addPageReference (c pointerInPage : Nat)
  | kfree (c pa : Nat)
  | link (c : Nat)
deriving DecidableEq, Repr

/-- One locked section, run by CPU `c`. References are added to allocated pages only, and `kfree` is called on pages
with references left. -/
def allocStep (s : AllocSys) : AllocAct → Option AllocSys
  | .kalloc c =>
      if s.pc c = .idle then
        match kalloc s.kmem with
        | (some p, k) => some { s with kmem := k, loans := Function.update s.loans p (some ⟨0, 0⟩) }
        | (none, k) => some { s with kmem := k }
      else none
  | .addPageReference c pointerInPage =>
      if s.pc c = .idle then
        (s.onLoan (pgRoundDown pointerInPage) fun l => { l with adds := l.adds + 1 }).map fun t =>
          { t with kmem := addPageReference s.kmem pointerInPage }
      else none
  | .kfree c pa =>
      if s.pc c = .idle then
        (s.onLoan pa fun l => { l with frees := l.frees + 1 }).map fun t =>
          match kfreeDrop s.kmem pa with
          | .ok (false, k) => { t with kmem := k }
          | .ok (true, k) => { t with kmem := k, pc := Function.update s.pc c (.linking pa) }
          | .error e => { t with pc := Function.update s.pc c (.panicked e) }
      else none
  | .link c =>
      match s.pc c with
      | .linking pa => some { s with kmem := linkPage s.kmem pa, pc := Function.update s.pc c .idle }
      | _ => none

end Xv6Net.Kernel
