import Xv6Net.Lib.Run
import Xv6Net.Sys.File

/-!
# Sockets as files (`kernel/sys/socket.c` and the socket calls of `kernel/sysproc.c`)

`listen` and `accept` look their descriptor up in one list of all sockets, the other calls in the table of the caller.
Besides its result, the outcome of a call says what it has looked at.
-/

namespace Xv6Net.Sys

open Kernel Net Procs Lib

def MAX_SOCKET_CAPACITY : Nat := 512

/-! ## The lists of sockets -/

-- not to be unfolded over all of its 512 entries
@[irreducible] def SockList.firstNull (l : SockList) : Option Nat :=
  (List.range MAX_SOCKET_CAPACITY).find? fun i => (l.socks i).isNone

/-- The loop that all three insertions share: the first null entry is taken, if there is one. -/
def SockList.insert (l : SockList) (sock : Nat) : SockList :=
  match l.firstNull with
  | none => l
  | some i => ⟨Function.update l.socks i (some sock), l.size + 1⟩

def tcpSocketListInsert (s : State) (sock : Nat) : State := { s with tcpSockList := s.tcpSockList.insert sock }

def udpSocketListInsert (s : State) (sock : Nat) : State := { s with udpSockList := s.udpSockList.insert sock }

/-- `sock_list_insert`. The insertion into the second list always returns 0, so its result is not looked at here. -/
def sockListInsert (s : State) (sock : Nat) : Int × State :=
  if s.sockList.size = MAX_SOCKET_CAPACITY then (-1, s)
  else
    let s := { s with sockList := s.sockList.insert sock }
    if (s.host.socks sock).type = SOCK_DGRAM then (0, udpSocketListInsert s sock)
    else if (s.host.socks sock).type = SOCK_STREAM then (0, tcpSocketListInsert s sock)
    else (0, s)

/-- `getsock` from entry `i` on, with `left` entries to the end of the page of pointers: the sockets whose number is
read, and the result. -/
def getsockFrom (s : State) (fd : Int) (i : Nat) : (left : Nat) → List Nat × Except Stop (Option Nat)
  | 0 => ([], if (i : Int) < s.sockList.size then .error .overrun else .ok none)
  | left + 1 =>
      if (i : Int) < s.sockList.size then
        match s.sockList.socks i with
        | none => ([], .error .fault)
        | some sock =>
            match s.rest sock with
            | none => ([sock], .error .overrun)
            | some x =>
                if x.fd = fd then ([sock], .ok (some sock))
                else
                  let (reads, r) := getsockFrom s fd (i + 1) left
                  (sock :: reads, r)
      else ([], .ok none)

def getsock (s : State) (fd : Int) : List Nat × Except Stop (Option Nat) :=
  getsockFrom s fd 0 MAX_SOCKET_CAPACITY

/-- `sock_list_init` and its two copies: only the page of pointers is cleared, and `size` has the bytes that `kalloc`
left. -/
def SockList.fresh : SockList := ⟨fun _ => none, 0x05050505⟩

/-- `socket_init`. Without six free pages a list stays a null pointer. -/
def socketInit (s : State) : Option State :=
  match (List.range 6).foldlM (fun k _ => match kalloc k with
      | (some _, k) => some k
      | (none, _) => none) s.host.kmem with
  | none => none
  | some k => some { s.setKmem k with sockList := .fresh, tcpSockList := .fresh, udpSockList := .fresh }

/-! ## `socket` -/

/-- The checks of `initsocket`, and the protocol it gives a socket whose arguments pass them. -/
def acceptedProtocol (family type protocol : Int) : Option SockOps :=
  if family ≠ AF_INET then none
  else if type ≠ SOCK_STREAM ∧ type ≠ SOCK_DGRAM then none
  else
    let protocol : Int :=
      if protocol = 0 then if type = SOCK_STREAM then IPPROTO_TCP else IPPROTO_UDP else protocol
    if protocol ≠ IPPROTO_TCP ∧ protocol ≠ IPPROTO_UDP then none
    else if (protocol = IPPROTO_TCP ∧ type ≠ SOCK_STREAM) ∨ (protocol = IPPROTO_UDP ∧ type ≠ SOCK_DGRAM) then none
    else if protocol = IPPROTO_TCP then some .tcp
    else some .udp

def SockOps.proto : SockOps → Nat
  | .tcp => IPPROTO_TCP
  | .udp => IPPROTO_UDP

def SockOps.type : SockOps → Nat
  | .tcp => SOCK_STREAM
  | .udp => SOCK_DGRAM

def State.setSock (s : State) (sock : Nat) (x : Socket) (r : Option SockRest) : State :=
  { s with
    host := { s.host with socks := Function.update s.host.socks sock x }
    rest := Function.update s.rest sock r }

/-- `initsocket`. -/
def initsocket (s : State) (sock : Nat) (family type protocol : Int) : Int × State :=
  match acceptedProtocol family type protocol with
  | none => (-1, s)
  | some o =>
      let x : Socket := { s.host.socks sock with
        proto := o.proto
        srcIp := s.host.netconf.ipAddr
        type := o.type
        family := AF_INET
        state := .closed
        rxHead := none
        rxTail := none }
      sockListInsert (s.setSock sock x ((s.rest sock).map fun r => { r with ops := some o })) sock

/-- A socket in a page that `memset` has cleared. -/
def zeroSocket : Socket := ⟨0, 0, 0, 0, 0, .zero, none, none⟩

/-- The end of `sys_socket` where it gives up: the page is freed, and holds no socket from then on. -/
def freeSocket (s : State) (sock : Nat) : Except Stop (Option Int × State) := do
  let k ← kfree s.host.kmem sock
  .ok (some (-1), { s.setKmem k with rest := Function.update s.rest sock none })

/-- `sys_socket`. The result of `initsocket` is not looked at. -/
def sysSocket (s : State) (p : Slot) (family type protocol : Int) : Except Stop (Option Int × State) :=
  match kalloc s.host.kmem with
  | (none, k) => .ok (some (-1), s.setKmem k)
  | (some sock, k) =>
      let s := (s.setKmem k).setSock sock zeroSocket (some ⟨0, none, false⟩)
      let s := (initsocket s sock family type protocol).2
      match filealloc s with
      | none => freeSocket s sock
      | some (f, s) =>
          match fdalloc s p f with
          | none => do freeSocket (← fileclose s f) sock
          | some (fd, s) =>
              let s := s.setFile f { s.ftable f with type := .socket, sock := sock }
              .ok (some fd.val, { s with
                rest := Function.update s.rest sock ((s.rest sock).map fun r => { r with fd := fd.val }) })

/-! ## Calls on sockets -/

/-- What a call on a descriptor has looked at, and how it ends. -/
structure Outcome where
  -- `ofile` is read inside of its bounds
  inRange : Bool
  -- the sockets with a field that is read
  reads : List Nat
  -- the socket that the call works on
  resolved : Option Nat
  result : Except Stop (Option Int × State)

/-- The start of `sys_bind`, `sys_send`, `sys_recv`, `sys_sendto` and `sys_recvfrom`, which index `ofile` with the
descriptor as it is. Nothing is known of a pointer from behind the array. -/
def onDescriptor (s : State) (p : Slot) (fd : Int) (call : Nat → Except Stop (Option Int × State)) : Outcome :=
  match fdIndex fd with
  | none => ⟨false, [], none, .error .overrun⟩
  | some i =>
      match s.ofile p i with
      | none => ⟨true, [], none, .ok (some (-1), s)⟩
      | some f =>
          if (s.ftable f).type ≠ .socket then ⟨true, [], none, .ok (some (-1), s)⟩
          else ⟨true, [(s.ftable f).sock], some (s.ftable f).sock, call (s.ftable f).sock⟩

def State.withHost (s : State) (h : Host) : State := { s with host := h }

/-- `sys_bind`, with the address that is in the buffer after `copyin`, `none` where that fails. -/
def sysBind (s : State) (p : Slot) (fd : Int) (uaddr : Option Sockaddr) (addrlen : Int) : Outcome :=
  onDescriptor s p fd fun sock =>
    -- the length is compared as an unsigned number
    if addrlen < 0 ∨ SOCKADDR_IN_SIZE < addrlen then .ok (some (-1), s)
    else
      match uaddr with
      | none => .ok (some (-1), s)
      | some addr => do
          match ← s.ops sock with
          | .udp =>
              let (r, h) := udpBind s.host sock (some addr.toSockaddrIn) addrlen.toNat
              .ok (some r, s.withHost h)
          | .tcp =>
              let (r, h) ← tcpBind s.host sock (some addr) addrlen.toNat
              .ok (some r, s.withHost h)

/-- `sys_sendto`; `tcp_ops` has a null pointer in the place of the function. -/
def sysSendto (s : State) (p : Slot) (fd len : Int) (addrlen : Nat) (kaddr : Option SockaddrIn)
    (copyin : Nat → Bool × List UInt8) : Outcome :=
  onDescriptor s p fd fun sock => do
    match ← s.ops sock with
    | .udp =>
        let (r, h) ← (udpSendto s.host sock len addrlen kaddr copyin).2
        .ok (r, s.withHost h)
    | .tcp => .error .fault

/-- `sys_recvfrom`; `tcp_ops` has a null pointer in the place of the function. -/
def sysRecvfrom (s : State) (p : Slot) (fd len : Int) (mapped : Bool) : Outcome :=
  onDescriptor s p fd fun sock => do
    match ← s.ops sock with
    | .udp =>
        match udpRecvfrom s.host sock len fun _ => (mapped, ()) with
        | none => .ok (none, s)
        | some r => do
            let r ← r
            .ok (some r.ret, s.withHost r.host)
    | .tcp => .error .fault

/-- `sys_send`: `send` does nothing. -/
def sysSend (s : State) (p : Slot) (fd : Int) : Outcome := onDescriptor s p fd fun _ => .ok (some 0, s)

/-- `sys_recv`: `recv` does nothing. -/
def sysRecv (s : State) (p : Slot) (fd : Int) : Outcome := onDescriptor s p fd fun _ => .ok (some 0, s)

/-- The start of `listen` and `accept`. -/
def onListed (s : State) (fd : Int) (call : Nat → Except Stop (Option Int × State)) : Outcome :=
  match getsock s fd with
  | (reads, .error e) => ⟨true, reads, none, .error e⟩
  | (reads, .ok none) => ⟨true, reads, none, .ok (some (-1), s)⟩
  | (reads, .ok (some sock)) => ⟨true, reads, some sock, call sock⟩

/-- `listen`, which returns 0 whatever `tcp_listen` returns; `udp_ops` has a null pointer in the place of the
function. -/
def listen (s : State) (fd : Int) : Outcome :=
  onListed s fd fun sock => do
    match ← s.ops sock with
    | .udp => .error .fault
    | .tcp => .ok (some 0, s.withHost (tcpListen s.host sock).2)

/-- Whether `accept` takes the socket for one that waits for connections. -/
def acceptsOn (x : Socket) : Bool := x.proto = IPPROTO_TCP ∧ x.type = SOCK_STREAM ∧ x.state = .listening

/-- `accept`; `none` while it sleeps. -/
def accept (s : State) (fd : Int) : Outcome :=
  onListed s fd fun sock =>
    if acceptsOn (s.host.socks sock) then
      match s.rest sock with
      | none => .error .overrun
      | some x => .ok (if x.pending then some x.fd else none, s)
    else .ok (some (-1), s)

inductive SockCall where
  | bind (fd : Int) (uaddr : Option Sockaddr) (addrlen : Int)
  | listen (fd : Int)
  | accept (fd : Int)
  | sendto (fd len : Int) (addrlen : Nat) (kaddr : Option SockaddrIn) (copyin : Nat → Bool × List UInt8)
  | recvfrom (fd len : Int) (mapped : Bool)
  | send (fd : Int)
  | recv (fd : Int)

def SockCall.fd : SockCall → Int
  | .bind fd .. | .listen fd | .accept fd | .sendto fd .. | .recvfrom fd .. | .send fd | .recv fd => fd

def sockCall (s : State) (p : Slot) : SockCall → Outcome
  | .bind fd uaddr addrlen => sysBind s p fd uaddr addrlen
  | .listen fd => listen s fd
  | .accept fd => accept s fd
  | .sendto fd len addrlen kaddr copyin => sysSendto s p fd len addrlen kaddr copyin
  | .recvfrom fd len mapped => sysRecvfrom s p fd len mapped
  | .send fd => sysSend s p fd
  | .recv fd => sysRecv s p fd

/-! ## Runs -/

inductive Call where
  | openFile (lookup : Option Inode) (omode : UInt32)
  | close (fd : Int)
  | dup (fd : Int)
  | pipe (mapped : Bool)
  | socket (family type protocol : Int)
  | fork (np : Slot)
  | exit
  | read (fd n : Int) (env : ReadEnv)
  | write (fd n : Int) (env : WriteEnv)
  | sock (c : SockCall)

/-- A system call of process `p`. Of `fork` and `exit` there are the descriptors: `fork` takes a slot that is not in
use, and the slot of a process that exits is free again. -/
def syscall (s : State) (p : Slot) : Call → Except Stop (Option Int × State)
  | .openFile lookup omode => sysOpen s p lookup omode
  | .close fd => sysClose s p fd
  | .dup fd => sysDup s p fd
  | .pipe mapped => sysPipe s p mapped
  | .socket family type protocol => sysSocket s p family type protocol
  | .fork np =>
      if s.used np then .ok (some (-1), s)
      else do
        let s ← dupFiles s p np
        .ok (some np.val, { s with used := Function.update s.used np true })
  | .exit => do
      let s ← closeFiles s p
      .ok (none, { s with used := Function.update s.used p false })
  | .read fd n env => sysRead s p fd n env
  | .write fd n env => sysWrite s p fd n env
  | .sock c => (sockCall s p c).result

inductive Act where
  | call (p : Slot) (c : Call)
  | packet (frame : List UInt8)

/-- One event: a system call of a process, or a frame from the device. Nothing follows once the kernel has stopped. -/
def sysStep (s : State) : Act → Option State
  | .call p c => if s.used p then (syscall s p c).toOption.map (·.2) else none
  | .packet frame => (handlePacket s.host frame).toOption.map s.withHost

/-- The machine with its first process, and no file open. -/
def State.start (h : Host) : State where
  ftable := fun _ => .zero
  ofile := fun _ _ => none
  host := h
  used := fun p => p = 0
  pipes := fun _ => ⟨fun _ => 0, 0, 0, false, false⟩
  rest := fun _ => none
  sockList := ⟨fun _ => none, 0⟩
  tcpSockList := ⟨fun _ => none, 0⟩
  udpSockList := ⟨fun _ => none, 0⟩

/-- The states that the system reaches after `socket_init`. -/
def Reaches (h : Host) (as : List Act) (s : State) : Prop :=
  ∃ s₀, socketInit (.start h) = some s₀ ∧ run sysStep s₀ as = some s

end Xv6Net.Sys
