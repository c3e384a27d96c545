import Xv6Net.Fs.Lemmas.Log
import Xv6Net.Sched.Lemmas.Buffers
import Xv6Net.Sched.Monitor

/-!
# The calls that sleep keep to the rules

Which lock is held at each label, what is known there, and which channel has yet to be woken up.
-/

namespace Xv6Net.Sched

open Xv6Net.Fs (Log)
open Xv6Net.Kernel (Stop)
open Xv6Net.Lib (window)
open Xv6Net.Sys (Pipe PIPESIZE)

theorem Next.label_entry (next : Next) : next.label.held = [] ∧ next.label.irq = next.irq := by
  cases next with
  | done irq => cases irq <;> exact ⟨rfl, rfl⟩
  | _ => exact ⟨rfl, rfl⟩

theorem Loop.test_goes (x : Loop) (me : Option Caller) (v : Shared) :
    (x.test me v).2.held = [x.chan.lockId] ∧ (x.test me v).2.irq = false := by
  cases x <;> simp only [Loop.test] <;> (repeat' split) <;> exact ⟨rfl, rfl⟩

theorem Task.act_goes (t : Task) (me : Option Caller) (v : Shared) :
    (t.act me v).2.held = [t.lock] ∧ (t.act me v).2.irq = t.irq := by
  cases t with
  | loop x => exact x.test_goes me v
  | pipeclose x writable => cases writable <;> exact ⟨rfl, rfl⟩
  | handleUdp port pkt => cases hb : v.binds port <;> simp [Task.act, hb, Label.held, Label.irq, Task.lock, Task.irq, Next.irq]
  | _ =>
      simp only [Task.act]
      (repeat' split) <;> exact ⟨rfl, rfl⟩

theorem kernel_disciplined (S : Script) : kernelDiscipline.Sound (kernel S) := by
  have hact : ∀ {pc : Label} {k : LockId} {f : Option Caller → Shared → Shared × Label}, pc.held = [k] →
      (∀ me v, (f me v).2.held = [k] ∧ (f me v).2.irq = pc.irq) → kernelDiscipline.Allows pc (.act k f) := fun hpc hnext =>
    ⟨by simp [kernelDiscipline, hpc], fun me v => ⟨(hnext me v).1.trans hpc.symm, (hnext me v).2⟩⟩
  refine ⟨fun pc => ?_, fun pc => ?_, fun n => ⟨rfl, rfl⟩, ⟨rfl, rfl⟩, ⟨rfl, rfl⟩, ⟨rfl, rfl⟩, fun n => ?_⟩
  · cases pc <;> simp [kernelDiscipline, Label.held]
  · cases pc with
    | body =>
        intro n
        simp only [Discipline.Goes]
        cases S.call n <;> exact ⟨rfl, rfl⟩
    | ret => rfl
    | panic => trivial
    | fork | wait | doze => exact ⟨rfl, rfl, rfl, rfl⟩
    | exit | kill | wake | wakeFull | txWake => exact ⟨rfl, rfl⟩
    | ask | writeKilled => exact ⟨rfl, ⟨rfl, rfl⟩, rfl, rfl⟩
    | uartintr => exact fun n => ⟨rfl, by dsimp only; split <;> rfl⟩
    | writeCopyin | readCopyout | consCopyout | readLsr => exact fun n => by dsimp only; split <;> exact ⟨rfl, rfl⟩
    | enter t => exact ⟨fun _ hx => absurd hx List.not_mem_nil, rfl, rfl⟩
    | leave k next =>
        refine ⟨List.mem_cons_self, ?_, next.label_entry.2⟩
        simpa [kernelDiscipline, Label.held] using next.label_entry.1
    | run t => exact hact rfl (t.act_goes · ·)
    | writeStore | txSend => exact hact rfl fun _ _ => ⟨rfl, rfl⟩
    | writeFull | readCopy | uartstart => exact hact rfl fun _ _ => by split <;> exact ⟨rfl, rfl⟩
  · simp only [kernel]
    split <;> exact ⟨rfl, rfl⟩

/-! ## Channels -/

namespace ChanId

theorem addr_injective : Function.Injective addr := by
  intro a b h
  cases a <;> cases b <;> simp only [addr] at h <;> first | rfl | (congr 1; omega)

/-- The channel with this address; nothing happens on `ticks` that anybody waits for. -/
noncomputable def ofAddr (n : Nat) : ChanId := (Function.partialInv addr n).getD .ticks

@[simp] theorem ofAddr_addr (ch : ChanId) : ofAddr ch.addr = ch := by
  simp [ofAddr, Function.partialInv_left addr_injective]

theorem addr_ofAddr {n : Nat} {ch : ChanId} (h : ofAddr n = ch) (hne : ch ≠ .ticks) : n = ch.addr := by
  cases hp : Function.partialInv addr n with
  | none => simp [ofAddr, hp] at h; exact absurd h.symm hne
  | some ch' =>
      obtain rfl : ch' = ch := by simpa [ofAddr, hp] using h
      exact ((addr_injective.isPartialInv _ _).mp hp).symm

end ChanId

/-! ## What is known at a label -/

def kernelInv : LockId → Shared → Prop
  | .pipe _, v => v.PipeOk
  | .cons, v => v.cons.Ok
  | .uart, v => v.uart.Ok
  | .sock _, v => v.rx.Ok
  | _, _ => True

def Label.Knows : Label → Shared → Prop
  | .ask x, v | .doze x, v => ¬ x.chan.Cond v
  | .writeKilled _ _ _, v | .writeFull _ _ _, v => v.pipe.readopen = true
  | .wakeFull x _ _, v => ¬ (ChanId.nwrite x).Cond v
  | .writeCopyin _ _ _, v | .writeStore _ _ _ _, v => ¬ Pipe.Full v.pipe
  | .readLsr _, v | .txSend _, v => v.uart.w ≠ v.uart.r
  | .panic _ e, _ => Stop.message e ∈ kernelPanics
  | _, _ => True

/-- The channel that has yet to be woken up. -/
def Label.owes : Label → Option ChanId
  | .wake ch _ => if ch = .ticks then none else some ch
  | .readCopy x _ _ | .readCopyout x _ _ => some (.nwrite x)
  | .txWake _ => some .uart
  | _ => none

noncomputable def kernelMonitor : Monitor LockId Label Shared where
  inv := kernelInv
  asserts pc k v := kernelInv k v ∧ pc.Knows v
  lockOf n := (ChanId.ofAddr n).lockId
  cond n := (ChanId.ofAddr n).Cond
  owes pc n := pc.owes = some (ChanId.ofAddr n)

/-! ## The log -/

theorem beginOp_ne_none {log : Log} :
    Fs.beginOp log ≠ none ↔ log.committing = false ∧ log.lh.length + (log.outstanding + 1) * Fs.MAXOPBLOCKS ≤ Fs.LOGSIZE := by
  constructor
  · intro h
    obtain ⟨log', h⟩ := Option.ne_none_iff_exists'.mp h
    exact ⟨(Fs.beginOp_eq_some h).1, (Fs.beginOp_eq_some h).2.1⟩
  · rintro ⟨hc, hn⟩
    simp [Fs.beginOp, hc, Int.not_lt.mpr hn]

/-- `log_write` leaves less room than there was. -/
theorem beginOp_of_logWrite {log log' : Log} {b : UInt32} (h : Fs.logWrite log b = .ok log') (hb : Fs.beginOp log' ≠ none) :
    Fs.beginOp log ≠ none := by
  obtain ⟨-, -, -, rfl⟩ := Fs.logWrite_eq_ok h
  rw [beginOp_ne_none] at hb ⊢
  have hlen : log.lh.length ≤ (Fs.absorbed log.lh b).length := by
    simp only [Fs.absorbed]
    split <;> simp
  exact ⟨hb.1, by have := hb.2; simp only at this; omega⟩

/-- Nobody begins an operation while the last one commits. -/
theorem beginOp_of_endOp {log log' : Log} (h : Fs.endOp log = .ok (true, log')) : Fs.beginOp log' = none := by
  simp only [Fs.endOp] at h
  split at h
  · cases h
  · split at h
    · cases h
      simp [Fs.beginOp]
    · cases h

/-! ## Steps on the data -/

/-- A step of the holder of `k` that owes nothing, or owes `ch'` to the end. -/
structure ActOk (k : LockId) (v : Shared) (r : Shared × Label) : Prop where
  inv : kernelInv k r.1
  knows : r.2.Knows r.1
  wakes : ∀ ch : ChanId, ch.lockId = k → r.2.owes = some ch ∨ (ch.Cond r.1 → ch.Cond v)

variable {k : LockId} {v : Shared} {pc next : Label} {ch : ChanId}

theorem ActOk.test (hinv : kernelInv k v) (hknows : next.Knows v) : ActOk k v (v, next) := ⟨hinv, hknows, fun _ _ => .inr id⟩

theorem Loop.test_ok (x : Loop) (me : Option Caller) (hinv : kernelInv x.chan.lockId v) :
    ActOk x.chan.lockId v (x.test me v) := by
  cases x with
  | acquiresleep | beginOp =>
      simp only [Loop.test]
      split
      · rename_i hno
        exact .test trivial (by simpa [Label.Knows, Loop.chan, ChanId.Cond] using hno)
      · refine ⟨trivial, trivial, fun ch hch => .inr ?_⟩
        cases ch <;> simp_all [Loop.chan, ChanId.lockId, ChanId.Cond]
  | pipewrite x i n =>
      refine .test hinv ?_
      split
      · split
        · assumption
        · trivial
      · trivial
  | piperead x n =>
      refine .test hinv ?_
      split
      · rename_i hempty
        simpa [Label.Knows, Loop.chan, ChanId.Cond] using hempty.2
      · trivial
  | consoleread n target =>
      simp only [Loop.test]
      split
      · exact .test hinv trivial
      split
      · rename_i hempty
        exact .test hinv (by simpa [Label.Knows, Loop.chan, ChanId.Cond] using hempty)
      · rename_i hne
        refine ⟨Cons.Ok.get hinv hne n target, by dsimp only; split <;> trivial, fun ch hch => .inr fun _ => ?_⟩
        cases ch <;> first | exact hne | cases hch
  | uartputc c =>
      simp only [Loop.test]
      split
      · rename_i hfull
        exact .test hinv (by simpa [Label.Knows, Loop.chan, ChanId.Cond] using hfull)
      · rename_i hfull
        refine ⟨Uart.Ok.put hinv hfull c, trivial, fun ch hch => .inr fun _ => ?_⟩
        cases ch <;> first | exact hfull | cases hch
  | recvfrom sock =>
      simp only [Loop.test]
      split
      · rename_i hnone
        exact .test hinv (by simpa [Label.Knows, Loop.chan, ChanId.Cond] using hnone)
      · rename_i hsome
        refine ⟨RxQueue.Ok.dequeue hinv, trivial, fun ch hch => .inr fun _ => ?_⟩
        cases ch <;> first | simpa [ChanId.Cond] using hsome | cases hch
  | sleep ticks0 n =>
      refine .test trivial ?_
      split
      · exact id
      · trivial

theorem Task.act_ok (t : Task) (me : Option Caller) (hinv : kernelInv t.lock v) : ActOk t.lock v (t.act me v) := by
  cases t with
  | loop x => exact x.test_ok me hinv
  | uartintr => exact .test hinv trivial
  | holdingsleep | handleUdp | sysSleep => exact .test trivial trivial
  | releasesleep | commit =>
      refine ⟨trivial, trivial, fun ch hch => .inl ?_⟩
      cases ch <;> cases hch
      rfl
  | logWrite b =>
      simp only [Task.act]
      split
      · rename_i e he
        refine .test trivial ?_
        simp only [Fs.logWrite] at he
        split at he
        · cases he; exact .tail _ (.head _)
        · split at he
          · cases he; exact .tail _ (.tail _ (.head _))
          · split at he <;> cases he
      · rename_i log hlog
        refine ⟨trivial, trivial, fun ch hch => .inr fun hc => ?_⟩
        cases ch <;> first | exact beginOp_of_logWrite hlog hc | cases hch
  | endOp =>
      simp only [Task.act]
      split
      · rename_i e he
        refine .test trivial ?_
        simp only [Fs.endOp] at he
        split at he
        · cases he; exact .tail _ (.tail _ (.tail _ (.head _)))
        · split at he <;> cases he
      · rename_i log hlog
        refine ⟨trivial, trivial, fun ch hch => .inr fun hc => ?_⟩
        cases ch <;> first | exact absurd (beginOp_of_endOp hlog) hc | cases hch
      · refine ⟨trivial, trivial, fun ch hch => .inl ?_⟩
        cases ch <;> cases hch
        rfl
  | pipeclose x writable =>
      refine ⟨Shared.PipeOk.endClosed hinv writable, trivial, fun ch hch => ?_⟩
      cases writable <;> cases ch <;> cases hch <;> first | exact .inl rfl | exact .inr id
  | consoleintr c =>
      refine ⟨Cons.Ok.intr hinv c, by simp only [Task.act]; split <;> trivial, fun ch hch => ?_⟩
      obtain rfl : ch = .cons := by cases ch <;> cases hch; rfl
      cases hw : (v.cons.intr c).1 with
      | true => exact .inl (by simp [Task.act, hw, Label.owes])
      | false =>
          obtain ⟨hr, hw⟩ := Cons.intr_quiet c hw
          exact .inr (by simp [Task.act, ChanId.Cond, hr, hw])
  | enqueue sock pkt =>
      obtain ⟨q, hq, hok⟩ := RxQueue.Ok.enqueue hinv pkt
      simp only [Task.act, hq]
      refine ⟨hok, trivial, fun ch hch => .inl ?_⟩
      cases ch <;> cases hch
      rfl
  | clockintr =>
      refine ⟨trivial, trivial, fun ch hch => .inr ?_⟩
      cases ch <;> exact id

/-! ## The program -/

theorem monitor_act {f : Option Caller → Shared → Shared × Label} (hpc : pc.held = [k])
    (h : ∀ me v, kernelInv k v → pc.Knows v → ActOk k v (f me v))
    (howes : pc.owes = none ∨ ∀ me v, (f me v).2.owes = pc.owes) : kernelMonitor.Allows kernelDiscipline pc (.act k f) := by
  intro me v hv
  have ho := h me v hv.1 hv.2
  refine ⟨⟨ho.inv, ho.knows⟩, fun n hn => ?_, fun k' hk' hne => absurd (by simpa [kernelDiscipline, hpc] using hk') hne⟩
  by_cases hp : pc.owes = some (ChanId.ofAddr n)
  · rcases howes with hnone | howes
    · rw [hnone] at hp; cases hp
    · exact .inl ((howes me v).trans hp)
  · exact (ho.wakes _ hn).imp_right fun hc => ⟨hp, hc⟩

theorem carries (hknows : ∀ v, pc.Knows v → next.Knows v) (howes : pc.owes = none ∨ next.owes = pc.owes) :
    kernelMonitor.Carries k pc next := by
  refine ⟨fun v hv => ⟨hv.1, hknows v hv.2⟩, fun n _ h => ?_⟩
  rcases howes with hnone | howes
  · simp [kernelMonitor, hnone] at h
  · exact howes.trans h

theorem closes (h : pc.owes = none) : kernelMonitor.Closes k pc := ⟨fun _ hv => hv.1, fun n _ => by simp [kernelMonitor, h]⟩

theorem kernel_monitored (S : Script) : kernelMonitor.Sound kernelDiscipline (kernel S) := by
  intro pc
  cases pc with
  | ret | fork | wait | exit | panic => trivial
  | body | uartintr => exact fun n k hk => by cases hk
  | kill => exact fun k hk => by cases hk
  | enter t => exact ⟨fun v hv => ⟨hv, trivial⟩, fun k hk => by cases hk⟩
  | leave k next => exact ⟨closes rfl, fun k' hk hne => absurd (List.mem_singleton.mp hk) hne⟩
  | doze x =>
      exact ⟨by simp [kernelMonitor], closes rfl, fun v hv => by simpa [kernelMonitor, Label.Knows] using hv.2, fun v hv => ⟨hv, trivial⟩⟩
  | ask | writeKilled => exact fun k _ => ⟨carries (fun _ _ => trivial) (.inl rfl), carries (fun _ => id) (.inl rfl)⟩
  | wake ch next =>
      refine fun k _ => ⟨fun v hv => ⟨hv.1, trivial⟩, fun n _ ho => .inl ?_⟩
      simp only [kernelMonitor, Label.owes] at ho
      split at ho
      · cases ho
      · exact ChanId.addr_ofAddr (Option.some.inj ho).symm ‹_›
  | wakeFull => exact fun k _ => ⟨fun v hv => hv, fun n _ ho => by cases ho⟩
  | txWake => exact fun k _ => ⟨fun v hv => ⟨hv.1, trivial⟩, fun n _ ho => .inl (ChanId.addr_ofAddr (Option.some.inj ho).symm (by simp))⟩
  | run t => exact monitor_act rfl (fun me v hinv _ => t.act_ok me hinv) (.inl rfl)
  | writeFull x i n =>
      refine monitor_act rfl (fun _ v hinv hopen => .test hinv ?_) (.inl rfl)
      split
      · rename_i hfull
        simpa [Label.Knows, ChanId.Cond, hfull] using hopen
      · assumption
  | writeCopyin | readLsr =>
      refine fun n k _ => carries (fun v hv => ?_) (.inl rfl)
      dsimp only
      split
      · trivial
      · exact hv
  | writeStore x i n c =>
      refine monitor_act rfl (fun _ v hinv hroom => ⟨Shared.PipeOk.storeByte hinv hroom c, trivial, fun ch hch => .inr ?_⟩) (.inl rfl)
      cases ch <;> cases hch
      · exact id
      · exact fun _ => .inr hroom
  | readCopy x i n =>
      refine monitor_act rfl (fun _ v hinv _ => ?_) (.inr fun _ v => by split <;> rfl)
      split
      · rename_i hne
        refine ⟨Shared.PipeOk.takeByte hinv hne.2, trivial, fun ch hch => ?_⟩
        cases ch <;> cases hch
        · exact .inr id
        · exact .inl rfl
      · exact .test hinv trivial
  | readCopyout => exact fun n k _ => carries (fun _ _ => by dsimp only; split <;> trivial) (.inr (by dsimp only; split <;> rfl))
  | consCopyout => exact fun n k _ => carries (fun _ _ => by dsimp only; split <;> trivial) (.inl rfl)
  | uartstart irq =>
      refine monitor_act rfl (fun _ v hinv _ => .test hinv ?_) (.inl rfl)
      split
      · trivial
      · assumption
  | txSend irq =>
      refine monitor_act rfl (fun _ v hinv hne => ⟨Uart.Ok.send hinv hne, trivial, fun ch hch => .inl ?_⟩) (.inl rfl)
      cases ch <;> cases hch
      rfl

theorem kernel_sleepsUnder (S : Script) : (kernel S).SleepsUnder fun n => (ChanId.ofAddr n).lockId := by
  intro pc chan k next hI
  have h := kernel_monitored S pc
  rw [hI] at h
  exact h.1

/-! ## The data at the start, and between calls -/

theorem Shared.Initial.inv (h : v.Initial) (x : LockId) : kernelInv x v := by
  obtain ⟨-, -, ⟨hr, hw, hput, htaken⟩, ⟨hcr, hcw, hce, hline, hent, hctaken⟩, ⟨huw, hur, hwritten, hsent⟩, hhead, htail⟩ := h
  cases x with
  | pipe x => constructor <;> simp [Pipe.Bounded, Pipe.buffered, hr, hw, hput, htaken]
  | cons => constructor <;> simp [Cons.edited, hcr, hcw, hce, hline, hent, hctaken]
  | uart => constructor <;> simp [huw, hur, hwritten, hsent]
  | sock x => simp [kernelInv, RxQueue.Ok, hhead, htail]
  | _ => trivial

end Xv6Net.Sched
