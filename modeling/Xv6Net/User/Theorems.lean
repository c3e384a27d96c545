import Xv6Net.Net.Lemmas.Addr
import Xv6Net.User.Lemmas.Inet
import Xv6Net.User.Lemmas.Ithreads

/-!
# Properties of the user library
-/

namespace Xv6Net.User

open Kernel Lib

/-! ## Threads -/

/-- In every run no block is freed twice and `stacks` has room for what is written to it. In every run in which each
`ithread_join` is of a thread of the process that was not joined before, a stack is freed after its thread was joined. -/
theorem stacks_outlive_of_own {g : Ithreads} {calls : List ThreadCall} (hr : run threadStep .start calls = some g) :
    FreesOnce g.log ∧ StoresFit g.log ∧ (RunMeets threadStep JoinsOwn .start calls → StacksOutlive g.log) := by
  have hblocks := run_keeps' (fun g c g' h hstep => Blocks.step h hstep) Blocks.start hr
  refine ⟨hblocks.once, hblocks.fit, fun hown => ?_⟩
  have hcounted := run_keeps (I := fun g => Blocks g ∧ Counted g)
    (fun g c g' ⟨hb, hc⟩ hjoin hstep => ⟨hb.step hstep, hc.step hb hjoin hstep⟩) ⟨.start, .start⟩ hown hr
  exact hcounted.2.outlive

def tenThreads : List ThreadCall :=
  (List.range 10).map (fun i => .create (3 + i)) ++ [.create (-1)] ++ (List.range 10).map (fun i => .join (12 - i))

def tenJoined : Sample threadStep .start tenThreads JoinsOwn (fun g => g.log.count (.free 3) = 1 ∧ g.stackArray = 0) :=
  .eval (by decide +kernel)

/-- Ten threads, for which `stacks` grows once, a thread that cannot be made, and ten joins. -/
theorem stacks_outlive_of_own_ten : ∃ g, run threadStep .start tenThreads = some g ∧ g.stackArray = 0 ∧ FreesOnce g.log ∧
    StoresFit g.log ∧ StacksOutlive g.log := by
  obtain ⟨g, hm, hr, -, hs⟩ := tenJoined
  obtain ⟨honce, hfit, houtlive⟩ := stacks_outlive_of_own hr
  exact ⟨g, hr, hs, honce, hfit, houtlive hm⟩

def badJoin : Sample threadStep .start [.create 3, .create 4, .join 3, .join 3] (fun _ _ => True)
    (fun g => g.threads = [4] ∧ .created 4 3 ∈ g.log ∧ .joined 4 ∉ g.log ∧ .free 3 ∈ g.log) := .eval (by decide +kernel)

def unknownJoin : Sample threadStep .start [.create 3, .join 99] (fun _ _ => True)
    (fun g => g.threads = [3] ∧ .created 3 2 ∈ g.log ∧ .joined 3 ∉ g.log ∧ .free 2 ∈ g.log) := .eval (by decide +kernel)

/-- A join that fails counts like one that succeeds: a thread is joined twice, or a thread that was never made is joined,
and the stack of a thread that runs is freed. -/
theorem stacks_freed_early :
    (∃ g, run threadStep .start [.create 3, .create 4, .join 3, .join 3] = some g ∧ g.threads = [4] ∧
      ¬ StacksOutlive g.log) ∧
    ∃ g, run threadStep .start [.create 3, .join 99] = some g ∧ g.threads = [3] ∧ ¬ StacksOutlive g.log := by
  have hearly : ∀ {log : List Event} {threadId : Int} {block : Nat}, .created threadId block ∈ log → .joined threadId ∉ log →
      .free block ∈ log → ¬ StacksOutlive log := by
    intro log threadId block hcreated hnot hfree houtlive
    obtain ⟨post, pre, rfl⟩ := List.append_of_mem hfree
    have hjoined := houtlive block pre threadId (List.suffix_append ..) hcreated
    exact hnot (List.mem_append_right _ (List.mem_cons_of_mem _ hjoined))
  obtain ⟨g, -, hr, hthreads, hcreated, hnot, hfree⟩ := badJoin
  obtain ⟨g', -, hr', hthreads', hcreated', hnot', hfree'⟩ := unknownJoin
  exact ⟨⟨g, hr, hthreads, hearly hcreated hnot hfree⟩, g', hr', hthreads', hearly hcreated' hnot' hfree'⟩

/-! ## Addresses -/

/-- `inet_addr` returns the address of a dotted quad, and 0 for any other string. The address 0 is not told apart from the
latter. -/
theorem inet_addr_reads_dotted_quads (s : CString) :
    (∀ v : UInt32, inetAddr s = v ∧ v ≠ 0 ↔ DottedQuad s.chars v.toNat ∧ v ≠ 0) ∧
      ((¬ ∃ v, v ≠ 0 ∧ DottedQuad s.chars v) → inetAddr s = 0) := by
  constructor
  · intro v
    apply and_congr_left
    intro hv
    constructor
    · rintro rfl
      by_contra hnot
      apply hv
      apply inetAddr_of_not
      intro w hw
      rw [inetAddr_of_dottedQuad hw, UInt32.toNat_ofNat_of_lt' hw.lt] at hnot
      exact hnot hw
    · intro h
      rw [inetAddr_of_dottedQuad h, UInt32.ofNat_toNat]
  · intro hnone
    by_cases hquad : ∃ v, DottedQuad s.chars v
    · obtain ⟨v, hv⟩ := hquad
      have hzero : v = 0 := by
        by_contra hne
        exact hnone ⟨v, hne, hv⟩
      rw [inetAddr_of_dottedQuad hv, hzero]
      rfl
    · exact inetAddr_of_not (not_exists.mp hquad)

example : inetAddr ⟨[49, 48, 46, 48, 48, 48, 48, 49, 48, 46, 48, 46, 50], by decide, by decide⟩ = 0x0A0A0002 := by decide

/-- The parsers of the kernel and of the user library agree exactly on the dotted quads and on the strings that are not
taken for an address by the kernel either, or for the one that it returns for a failure. -/
theorem address_parsers_agree_iff (s : CString) :
    ParsersAgree s ↔ (∃ v, DottedQuad s.chars v) ∨ ∀ v, Net.LooseQuad s.chars v → v = 0xFFFFFFFF := by
  constructor
  · intro h
    by_cases hquad : ∃ v, DottedQuad s.chars v
    · exact .inl hquad
    · right
      intro v hv
      have hnone := not_exists.mp hquad
      have hones := h.2 (inetAddr_of_not hnone) (hnone 0)
      rw [Net.ipToU32_of_looseQuad hv, ← UInt32.toNat_inj, UInt32.toNat_ofNat_of_lt' hv.lt] at hones
      exact hones
  · intro h
    by_cases hquad : ∃ v, DottedQuad s.chars v
    · obtain ⟨v, hv⟩ := hquad
      have haddr := inetAddr_of_dottedQuad hv
      refine ⟨fun _ _ _ _ => ?_, fun hzero hnot => ?_⟩
      · rw [haddr, Net.ipToU32_of_looseQuad (Net.looseQuad_of_dottedQuad hv)]
      · rw [haddr, ← UInt32.toNat_inj, UInt32.toNat_ofNat_of_lt' hv.lt] at hzero
        have hzero : v = 0 := hzero
        exact absurd (hzero ▸ hv) hnot
    · have hones := h.resolve_left hquad
      refine ⟨fun v hv => absurd ⟨v, hv⟩ hquad, fun _ _ => ?_⟩
      by_cases hloose : ∃ v, Net.LooseQuad s.chars v
      · obtain ⟨v, hv⟩ := hloose
        rw [Net.ipToU32_of_looseQuad hv, hones v hv]
        rfl
      · rw [Net.ipToU32_of_not (not_exists.mp hloose)]
        rfl

/-- The string `1.2.3.4x`. -/
def textBehind : CString := ⟨[49, 46, 50, 46, 51, 46, 52, 120], by decide, by decide⟩

/-- The string `1..2.3`. -/
def emptyField : CString := ⟨[49, 46, 46, 50, 46, 51], by decide, by decide⟩

/-- The string `4294967297.0.0.1`. -/
def wrapsToOne : CString :=
  ⟨[52, 50, 57, 52, 57, 54, 55, 50, 57, 55, 46, 48, 46, 48, 46, 49], by decide, by decide⟩

/-- `ip_to_u32` returns 1.2.3.4, 1.0.2.3 and 1.0.0.1 for strings that are no addresses. -/
theorem address_parsers_differ : ¬ ParsersAgree textBehind ∧ ¬ ParsersAgree emptyField ∧ ¬ ParsersAgree wrapsToOne := by
  have hdiffer {s : CString} (hzero : inetAddr s = 0) (hnot : (s.chars.splitOn DOT).length ≠ 4 ∨
      ¬ ∀ f ∈ s.chars.splitOn DOT, IsOctet f) (hval : (Net.ipToU32 s).toUInt32 ≠ 0xFFFFFFFF) : ¬ ParsersAgree s := by
    intro h
    apply hval
    apply h.2 hzero
    rw [dottedQuad_iff]
    rintro ⟨hlen, hoctet, -⟩
    exact hnot.elim (fun hne => hne hlen) fun hne => hne hoctet
  refine ⟨hdiffer ?_ ?_ ?_, hdiffer ?_ ?_ ?_, hdiffer ?_ ?_ ?_⟩
  all_goals decide +kernel

end Xv6Net.User
