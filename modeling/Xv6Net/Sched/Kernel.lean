import Xv6Net.Fs.Log
import Xv6Net.Sched.Discipline
import Xv6Net.Sys.Pipe

/-!
# The calls that sleep

The functions of the kernel that call `sleep` and `wakeup`, as one program: sleep locks, the log, pipes, the console, the
UART, the queue of a socket, and the clock, next to the calls that make and end processes. A script says which of them the
processes call, and in which order.
-/

namespace Xv6Net.Sched

open Xv6Net.Fs (Log)
open Xv6Net.Kernel (Stop)
open Xv6Net.Lib (window)
open Xv6Net.Sys (Pipe PIPESIZE)

/-- The spinlocks of these functions. -/
inductive LockId where
  | sleeplock (x : Nat)
  | log
  | pipe (x : Nat)
  | cons
  | uart
  | sock (x : Nat)
  | ports
  | ticks
deriving DecidableEq

/-! ## What the locks protect -/

structure Sleeplock where
  locked : Bool
  pid : Nat
deriving DecidableEq

def INPUT_BUF_SIZE : Nat := 128

/-- The input buffer of the console. The logs say which characters have been typed in the line that is edited, which ones
have been entered with whole lines, and which ones readers have taken. -/
structure Cons where
  buf : Nat → UInt8
  r : UInt32
  w : UInt32
  e : UInt32
  line : List UInt8
  entered : List UInt8
  taken : List UInt8

/-- The characters that readers can take. -/
def Cons.unread (x : Cons) : List UInt8 := window x.buf INPUT_BUF_SIZE x.r.toNat (x.w - x.r).toNat

/-- The characters of the line that is edited, as they are stored. -/
def Cons.edited (x : Cons) : List UInt8 := window x.buf INPUT_BUF_SIZE x.w.toNat (x.e - x.w).toNat

/-- `cons.e--`. -/
def Cons.erase (x : Cons) : Cons := { x with e := x.e - 1, line := x.line.dropLast }

/-- `C('U')`, the loop with at most `fuel` rounds. -/
def Cons.killLine : (fuel : Nat) → Cons → Cons
  | 0, x => x
  | fuel + 1, x => if x.e ≠ x.w ∧ x.buf ((x.e - 1).toNat % INPUT_BUF_SIZE) ≠ 10 then killLine fuel x.erase else x

/-- `cons.w = cons.e`. -/
def Cons.enter (x : Cons) : Cons := { x with w := x.e, line := [], entered := x.entered ++ x.line }

def Cons.put (x : Cons) (c : UInt8) : Cons :=
  { x with buf := Function.update x.buf (x.e.toNat % INPUT_BUF_SIZE) c, e := x.e + 1, line := x.line ++ [c] }

/-- `cons.buf[cons.e++ % INPUT_BUF_SIZE] = c`, and whether this ends a line. -/
def Cons.store (x : Cons) (c : UInt8) : Bool × Cons :=
  let x := x.put c
  if c = 10 ∨ c = 4 ∨ x.e - x.r = .ofNat INPUT_BUF_SIZE then (true, x.enter) else (false, x)

/-- `consoleintr`, and whether it calls `wakeup`. -/
def Cons.intr (x : Cons) (c : UInt8) : Bool × Cons :=
  if c = 16 then (false, x)
  else if c = 21 then (false, x.killLine (x.e - x.w).toNat)
  else if c = 8 ∨ c = 127 then (false, if x.e ≠ x.w then x.erase else x)
  else if c ≠ 0 ∧ x.e - x.r < .ofNat INPUT_BUF_SIZE then x.store (if c = 13 then 10 else c)
  else (false, x)

/-- The next character of `consoleread`, with `n` of `target` bytes left. -/
def Cons.get (x : Cons) (n target : Nat) : UInt8 × Cons :=
  let c := x.buf (x.r.toNat % INPUT_BUF_SIZE)
  if c = 4 ∧ n < target then (c, x) else (c, { x with r := x.r + 1, taken := x.taken ++ [c] })

def UART_TX_BUF_SIZE : Nat := 32

/-- The output buffer of the UART. The logs say which characters were put into it, and which ones were sent. -/
structure Uart where
  buf : Nat → UInt8
  w : UInt64
  r : UInt64
  written : List UInt8
  sent : List UInt8

/-- The characters that have yet to be sent. -/
def Uart.unsent (x : Uart) : List UInt8 := window x.buf UART_TX_BUF_SIZE x.r.toNat (x.w - x.r).toNat

def Uart.Full (x : Uart) : Prop := x.w = x.r + .ofNat UART_TX_BUF_SIZE

instance (x : Uart) : Decidable x.Full := inferInstanceAs (Decidable (_ = _))

def Uart.put (x : Uart) (c : UInt8) : Uart :=
  { x with
    buf := Function.update x.buf (x.w.toNat % UART_TX_BUF_SIZE) c
    w := x.w + 1
    written := x.written ++ [c] }

def Uart.send (x : Uart) : Uart :=
  { x with r := x.r + 1, sent := x.sent ++ [x.buf (x.r.toNat % UART_TX_BUF_SIZE)] }

def Pipe.Full (pi : Pipe) : Prop := pi.nwrite = pi.nread + .ofNat PIPESIZE

instance (pi : Pipe) : Decidable (Pipe.Full pi) := inferInstanceAs (Decidable (_ = _))

/-- `rx_head` and `rx_tail` of a socket, with the `next` of the packets. -/
structure RxQueue where
  head : Option Nat
  tail : Option Nat
  next : Nat → Option Nat

/-- `enqueue_udp_packet`; `none` if it writes through a null `rx_tail`. -/
def RxQueue.enqueue (q : RxQueue) (pkt : Nat) : Option RxQueue :=
  let next := Function.update q.next pkt none
  match q.head, q.tail with
  | none, _ => some ⟨some pkt, some pkt, next⟩
  | some _, some t => some { q with tail := some pkt, next := Function.update next t (some pkt) }
  | some _, none => none

/-- `dequeue_udp_packet`. -/
def RxQueue.dequeue (q : RxQueue) : RxQueue :=
  match q.head with
  | none => q
  | some pkt => { q with head := q.next pkt, tail := if (q.next pkt).isNone then none else q.tail }

/-- What a lock protects. Each lock has its own, and uses one part of it. -/
structure Shared where
  sleeplock : Sleeplock
  log : Log
  pipe : Pipe
  -- the bytes that writers have stored in the pipe, and those that readers have taken
  put : List UInt8
  taken : List UInt8
  cons : Cons
  uart : Uart
  rx : RxQueue
  -- the socket that a port is bound to
  binds : Nat → Option Nat
  ticks : UInt32

/-- After initialisation, with any bytes in the buffers. -/
structure Shared.Initial (v : Shared) : Prop where
  sleeplock : v.sleeplock = ⟨false, 0⟩
  log : v.log.outstanding = 0 ∧ v.log.committing = false
  pipe : v.pipe.nread = 0 ∧ v.pipe.nwrite = 0 ∧ v.put = [] ∧ v.taken = []
  cons : v.cons.r = 0 ∧ v.cons.w = 0 ∧ v.cons.e = 0 ∧ v.cons.line = [] ∧ v.cons.entered = [] ∧ v.cons.taken = []
  uart : v.uart.w = 0 ∧ v.uart.r = 0 ∧ v.uart.written = [] ∧ v.uart.sent = []
  rx : v.rx.head = none ∧ v.rx.tail = none

/-- What comes out is what went in, in the order in which it went in, up to what is still in the buffer. Of a line, that
is what the editing has left of it. -/
def Shared.Queues (v : Shared) : LockId → Prop
  | .pipe _ => v.put = v.taken ++ v.pipe.buffered ∧ v.pipe.buffered.length ≤ PIPESIZE
  | .cons =>
      v.cons.entered = v.cons.taken ++ v.cons.unread ∧ v.cons.line = v.cons.edited ∧
        v.cons.unread.length + v.cons.edited.length ≤ INPUT_BUF_SIZE
  | .uart => v.uart.written = v.uart.sent ++ v.uart.unsent ∧ v.uart.unsent.length ≤ UART_TX_BUF_SIZE
  | _ => True

/-! ## Channels -/

/-- What is passed to `sleep` and `wakeup`: a sleep lock, `&log`, `&pi->nread`, `&pi->nwrite`, `&cons.r`, `&uart_tx_r`,
`&sock->rx_head` or `&ticks`. -/
inductive ChanId where
  | lock (x : Nat)
  | log
  | nread (x : Nat)
  | nwrite (x : Nat)
  | cons
  | uart
  | rx (sock : Nat)
  | ticks
deriving DecidableEq

/-- Different channels have different addresses. -/
def ChanId.addr : ChanId → Nat
  | .lock x => 8 * x
  | .log => 1
  | .nread x => 8 * x + 2
  | .nwrite x => 8 * x + 3
  | .cons => 4
  | .uart => 5
  | .rx sock => 8 * sock + 6
  | .ticks => 7

/-- The lock that is passed to `sleep` with the channel. -/
def ChanId.lockId : ChanId → LockId
  | .lock x => .sleeplock x
  | .log => .log
  | .nread x | .nwrite x => .pipe x
  | .cons => .cons
  | .uart => .uart
  | .rx sock => .sock sock
  | .ticks => .ticks

/-- What a sleeper waits for. A reader of a pipe waits for bytes as well, but a writer that is killed returns without a
call of `wakeup`. -/
def ChanId.Cond : ChanId → Shared → Prop
  | .lock _, v => v.sleeplock.locked = false
  | .log, v => Fs.beginOp v.log ≠ none
  | .nread _, v => v.pipe.writeopen = false
  | .nwrite _, v => v.pipe.readopen = false ∨ ¬ Pipe.Full v.pipe
  | .cons, v => v.cons.r ≠ v.cons.w
  | .uart, v => ¬ v.uart.Full
  | .rx _, v => v.rx.head ≠ none
  | .ticks, _ => False

/-! ## Labels -/

/-- What a process calls. -/
inductive Call where
  | acquiresleep (x : Nat)
  | releasesleep (x : Nat)
  | holdingsleep (x : Nat)
  | beginOp
  | logWrite (blockno : UInt32)
  | endOp
  | pipewrite (x n : Nat)
  | piperead (x n : Nat)
  | pipeclose (x : Nat) (writable : Bool)
  | consoleread (n : Nat)
  | uartputc (c : UInt8)
  | recvfrom (sock : Nat)
  | sleep (n : UInt32)
  | fork
  | wait
  | kill (pid : Nat)
  | exit
  | ret

/-- The loops around `sleep`, with the values of the local variables. -/
inductive Loop where
  | acquiresleep (x : Nat)
  | beginOp
  | pipewrite (x i n : Nat)
  | piperead (x n : Nat)
  | consoleread (n target : Nat)
  | uartputc (c : UInt8)
  | recvfrom (sock : Nat)
  | sleep (ticks0 n : UInt32)

def Loop.chan : Loop → ChanId
  | .acquiresleep x => .lock x
  | .beginOp => .log
  | .pipewrite x _ _ => .nwrite x
  | .piperead x _ => .nread x
  | .consoleread _ _ => .cons
  | .uartputc _ => .uart
  | .recvfrom sock => .rx sock
  | .sleep _ _ => .ticks

/-- What follows a call of `acquire`. -/
inductive Task where
  | loop (x : Loop)
  | releasesleep (x : Nat)
  | holdingsleep (x : Nat)
  | logWrite (blockno : UInt32)
  | endOp
  | commit
  | pipeclose (x : Nat) (writable : Bool)
  | consoleintr (c : UInt8)
  | uartintr
  | handleUdp (port pkt : Nat)
  | enqueue (sock pkt : Nat)
  | clockintr
  | sysSleep (n : UInt32)

def Task.lock : Task → LockId
  | .loop x => x.chan.lockId
  | .releasesleep x | .holdingsleep x => .sleeplock x
  | .logWrite _ | .endOp | .commit => .log
  | .pipeclose x _ => .pipe x
  | .consoleintr _ => .cons
  | .uartintr => .uart
  | .handleUdp _ _ => .ports
  | .enqueue sock _ => .sock sock
  | .clockintr | .sysSleep _ => .ticks

/-- What follows a call of `release`. -/
inductive Next where
  -- the function returns, to a process or in an interrupt handler
  | done (irq : Bool)
  | commit
  | uartintr
  | enqueue (sock pkt : Nat)

inductive Label where
  | body
  | ret (irq : Bool)
  | fork
  | wait
  | kill (pid : Nat)
  | exit
  | uartintr
  | enter (t : Task)
  | run (t : Task)
  -- `killed` and `sleep` in a loop
  | ask (x : Loop)
  | doze (x : Loop)
  -- `wakeup`, then `release`
  | wake (ch : ChanId) (next : Next)
  | leave (k : LockId) (next : Next)
  | panic (t : Task) (e : Stop)
  -- pipe.c
  | writeKilled (x i n : Nat)
  | writeFull (x i n : Nat)
  | wakeFull (x i n : Nat)
  | writeCopyin (x i n : Nat)
  | writeStore (x i n : Nat) (ch : UInt8)
  | readCopy (x i n : Nat)
  | readCopyout (x i n : Nat)
  -- console.c
  | consCopyout (n target : Nat) (c : UInt8)
  -- uart.c
  | uartstart (irq : Bool)
  | readLsr (irq : Bool)
  | txSend (irq : Bool)
  | txWake (irq : Bool)

def Next.label : Next → Label
  | .done irq => if irq then .ret true else .body
  | .commit => .enter .commit
  | .uartintr => .uartintr
  | .enqueue sock pkt => .enter (.enqueue sock pkt)

def Call.label : Call → Label
  | .acquiresleep x => .enter (.loop (.acquiresleep x))
  | .releasesleep x => .enter (.releasesleep x)
  | .holdingsleep x => .enter (.holdingsleep x)
  | .beginOp => .enter (.loop .beginOp)
  | .logWrite b => .enter (.logWrite b)
  | .endOp => .enter .endOp
  | .pipewrite x n => .enter (.loop (.pipewrite x 0 n))
  | .piperead x n => .enter (.loop (.piperead x n))
  | .pipeclose x writable => .enter (.pipeclose x writable)
  | .consoleread n => .enter (.loop (.consoleread n n))
  | .uartputc c => .enter (.loop (.uartputc c))
  | .recvfrom sock => .enter (.loop (.recvfrom sock))
  | .sleep n => .enter (.sysSleep n)
  | .fork => .fork
  | .wait => .wait
  | .kill pid => .kill pid
  | .exit => .exit
  | .ret => .ret false

/-- What the program leaves open: the calls of the processes, and the packets that arrive. -/
structure Script where
  call : Nat → Call
  port : Nat → Nat
  packet : Nat → Nat

/-! ## The program -/

def Shared.storeByte (v : Shared) (ch : UInt8) : Shared := { v with pipe := v.pipe.store ch, put := v.put ++ [ch] }

def Shared.takeByte (v : Shared) : Shared :=
  { v with
    pipe := { v.pipe with nread := v.pipe.nread + 1 }
    taken := v.taken ++ [v.pipe.data (v.pipe.nread.toNat % PIPESIZE)] }

/-- One round of a loop, up to `killed` and `sleep`. -/
def Loop.test (me : Option Caller) (v : Shared) : Loop → Shared × Label
  | .acquiresleep x =>
      if v.sleeplock.locked then (v, .doze (.acquiresleep x))
      else ({ v with sleeplock := ⟨true, me.elim 0 Caller.pid⟩ }, .leave (.sleeplock x) (.done false))
  | .beginOp =>
      match Fs.beginOp v.log with
      | none => (v, .doze .beginOp)
      | some log => ({ v with log := log }, .leave .log (.done false))
  | .pipewrite x i n =>
      (v, if i < n then if v.pipe.readopen then .writeKilled x i n else .leave (.pipe x) (.done false)
        else .wake (.nread x) (.done false))
  | .piperead x n =>
      (v, if v.pipe.nread = v.pipe.nwrite ∧ v.pipe.writeopen then .ask (.piperead x n) else .readCopy x 0 n)
  | .consoleread n target =>
      if n = 0 then (v, .leave .cons (.done false))
      else if v.cons.r = v.cons.w then (v, .ask (.consoleread n target))
      else
        ({ v with cons := (v.cons.get n target).2 },
          if (v.cons.get n target).1 = 4 then .leave .cons (.done false)
          else .consCopyout n target (v.cons.get n target).1)
  | .uartputc c =>
      if v.uart.Full then (v, .doze (.uartputc c)) else ({ v with uart := v.uart.put c }, .uartstart false)
  | .recvfrom sock =>
      if v.rx.head.isNone then (v, .doze (.recvfrom sock))
      else ({ v with rx := v.rx.dequeue }, .leave (.sock sock) (.done false))
  | .sleep ticks0 n => (v, if v.ticks - ticks0 < n then .ask (.sleep ticks0 n) else .leave .ticks (.done false))

def Task.act (me : Option Caller) (v : Shared) : Task → Shared × Label
  | .loop x => x.test me v
  | .releasesleep x => ({ v with sleeplock := ⟨false, 0⟩ }, .wake (.lock x) (.done false))
  | .holdingsleep x => (v, .leave (.sleeplock x) (.done false))
  | .logWrite b =>
      match Fs.logWrite v.log b with
      | .error e => (v, .panic (.logWrite b) e)
      | .ok log => ({ v with log := log }, .leave .log (.done false))
  | .endOp =>
      match Fs.endOp v.log with
      | .error e => (v, .panic .endOp e)
      | .ok (true, log) => ({ v with log := log }, .leave .log .commit)
      | .ok (false, log) => ({ v with log := log }, .wake .log (.done false))
  -- `commit` has emptied the log while `log.committing` was set
  | .commit => ({ v with log := { v.log with committing := false, lh := [] } }, .wake .log (.done false))
  | .pipeclose x writable =>
      ({ v with pipe := v.pipe.endClosed writable }, .wake (if writable then .nread x else .nwrite x) (.done false))
  | .consoleintr c =>
      ({ v with cons := (v.cons.intr c).2 }, if (v.cons.intr c).1 then .wake .cons .uartintr else .leave .cons .uartintr)
  | .uartintr => (v, .uartstart true)
  | .handleUdp port pkt => (v, .leave .ports ((v.binds port).elim (.done true) fun sock => .enqueue sock pkt))
  | .enqueue sock pkt =>
      match v.rx.enqueue pkt with
      | none => (v, .panic (.enqueue sock pkt) .fault)
      | some q => ({ v with rx := q }, .wake (.rx sock) (.done true))
  | .clockintr => ({ v with ticks := v.ticks + 1 }, .wake .ticks (.done true))
  | .sysSleep n => (v, .run (.loop (.sleep v.ticks n)))

/-- What is printed; a fault ends in `kerneltrap`. -/
def Stop.message : Stop → String
  | .panic msg => msg
  | _ => "kerneltrap"

def kernelInstr (S : Script) : Label → Instr LockId Label Shared
  | .body => .choose fun n => (S.call n).label
  | .ret _ => .ret
  | .fork => .fork .body
  | .wait => .wait .body
  | .kill pid => .kill pid .body
  | .exit => .exit
  | .uartintr => .choose fun m => .enter (if m = 0 then .uartintr else .consoleintr (.ofNat (m - 1)))
  | .enter t => .acquire t.lock (.run t)
  | .run t => .act t.lock fun me v => t.act me v
  | .ask x => .killed (.leave x.chan.lockId (.done false)) (.doze x)
  | .doze x => .sleep x.chan.addr x.chan.lockId (.run (.loop x))
  | .wake ch next => .wakeup ch.addr (.leave ch.lockId next)
  | .leave k next => .release k next.label
  | .panic _ e => .panic (Stop.message e)
  -- `pipewrite`
  | .writeKilled x i n => .killed (.leave (.pipe x) (.done false)) (.writeFull x i n)
  | .writeFull x i n => .act (.pipe x) fun _ v => (v, if Pipe.Full v.pipe then .wakeFull x i n else .writeCopyin x i n)
  | .wakeFull x i n => .wakeup (ChanId.nread x).addr (.doze (.pipewrite x i n))
  | .writeCopyin x i n => .choose fun m => if m = 0 then .wake (.nread x) (.done false) else .writeStore x i n (.ofNat m)
  | .writeStore x i n ch => .act (.pipe x) fun _ v => (v.storeByte ch, .run (.loop (.pipewrite x (i + 1) n)))
  -- `piperead`
  | .readCopy x i n => .act (.pipe x) fun _ v =>
      if i < n ∧ v.pipe.nread ≠ v.pipe.nwrite then (v.takeByte, .readCopyout x i n) else (v, .wake (.nwrite x) (.done false))
  | .readCopyout x i n => .choose fun m => if m = 0 then .wake (.nwrite x) (.done false) else .readCopy x (i + 1) n
  -- `consoleread`
  | .consCopyout n target c => .choose fun m =>
      if m = 0 ∨ c = 10 then .leave .cons (.done false) else .run (.loop (.consoleread (n - 1) target))
  -- `uartstart`
  | .uartstart b => .act .uart fun _ v => (v, if v.uart.w = v.uart.r then .leave .uart (.done b) else .readLsr b)
  | .readLsr b => .choose fun m => if m = 0 then .leave .uart (.done b) else .txSend b
  | .txSend b => .act .uart fun _ v => ({ v with uart := v.uart.send }, .txWake b)
  | .txWake b => .wakeup ChanId.uart.addr (.uartstart b)

/-- External interrupts come from the UART, or from the network card with a packet for some port. -/
def kernel (S : Script) : Program LockId Label Shared where
  instr := kernelInstr S
  syscall _ := .body
  external n := if n = 0 then .uartintr else .enter (.handleUdp (S.port n) (S.packet n))
  clockintr := .enter .clockintr
  fsinit := .body
  exiting := .body

/-! ## Which locks are held -/

def Label.held : Label → List LockId
  | .body | .ret _ | .fork | .wait | .kill _ | .exit | .uartintr | .enter _ => []
  | .run t | .panic t _ => [t.lock]
  | .ask x | .doze x => [x.chan.lockId]
  | .wake ch _ => [ch.lockId]
  | .leave k _ => [k]
  | .writeKilled x _ _ | .writeFull x _ _ | .wakeFull x _ _ | .writeCopyin x _ _ | .writeStore x _ _ _ => [.pipe x]
  | .readCopy x _ _ | .readCopyout x _ _ => [.pipe x]
  | .consCopyout _ _ _ => [.cons]
  | .uartstart _ | .readLsr _ | .txSend _ | .txWake _ => [.uart]

def Task.irq : Task → Bool
  | .consoleintr _ | .uartintr | .handleUdp _ _ | .enqueue _ _ | .clockintr => true
  | _ => false

def Next.irq : Next → Bool
  | .done irq => irq
  | .commit => false
  | .uartintr | .enqueue _ _ => true

def Label.irq : Label → Bool
  | .ret irq | .uartstart irq | .readLsr irq | .txSend irq | .txWake irq => irq
  | .uartintr => true
  | .enter t | .run t | .panic t _ => t.irq
  | .wake _ next | .leave _ next => next.irq
  | _ => false

-- None of these locks is taken under another one.
def kernelDiscipline : Discipline LockId Label := ⟨Label.held, Label.irq, fun _ => 0⟩

/-- All panics that there are: `exit` of the first process, and those of `log_write` and `end_op`, which a process can
call outside of an operation, or with too many blocks. -/
def kernelPanics : List String :=
  ["init exiting", "too big a transaction", "log_write outside of trans", "log.committing"]

end Xv6Net.Sched
