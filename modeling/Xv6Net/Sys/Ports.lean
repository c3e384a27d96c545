import Xv6Net.Net.Spec
import Xv6Net.Sys.Socket

/-!
# The port tables

The events that enter sockets in the port tables or look them up there: `socket`, the two binds, `tcp_listen`, and the
frames that arrive. A bind is reached through the operations of its socket, so `udp_bind` gets UDP sockets and
`tcp_bind` TCP sockets.
-/

namespace Xv6Net.Sys

open Kernel Net Procs Lib

/-- There is a socket of the protocol at `a`. -/
def State.IsSock (s : State) (a : Nat) (o : SockOps) : Prop := (s.rest a).bind (·.ops) = some o

instance decidableIsSock (s : State) (a : Nat) (o : SockOps) : Decidable (s.IsSock a o) :=
  inferInstanceAs (Decidable ((s.rest a).bind (·.ops) = some o))

/-- The port table of a protocol. -/
def State.portBinds (s : State) : SockOps → Nat → Option PortBinding
  | .udp => s.host.udpPortBinds
  | .tcp => s.host.tcpPortBinds

inductive PortAct where
  | socket (p : Slot) (family type protocol : Int)
  | udpBind (sock : Nat) (sockAddress : Option SockaddrIn) (addrlen : Nat)
  | tcpBind (sock : Nat) (sockAddress : Option Sockaddr) (addrlen : Nat)
  | tcpListen (sock : Nat)
  | packet (frame : List UInt8)

/-- One event at a time. Where the kernel stops, or a binding is stored behind its table, there is no next state. -/
def portStep (s : State) : PortAct → Option State
  | .socket p family type protocol => (sysSocket s p family type protocol).toOption.map (·.2)
  | .udpBind sock a l => if s.IsSock sock .udp then some (s.withHost (udpBind s.host sock a l).2) else none
  | .tcpBind sock a l =>
      if s.IsSock sock .tcp then (tcpBind s.host sock a l).toOption.map fun r => s.withHost r.2 else none
  | .tcpListen sock => if s.IsSock sock .tcp then some (s.withHost (tcpListen s.host sock).2) else none
  | .packet frame => (handlePacket s.host frame).toOption.map s.withHost

/-- The host at boot: no port of either table is bound, and no page is on the free list twice. -/
structure Unbound (h : Host) : Prop where
  boot : h.AtBoot
  tcp : ∀ port < MAX_PORT_BINDINGS, h.tcpPortBinds port = none
  nodup : h.kmem.freelist.Nodup

/-- `s` is reached from `socket_init` by the events `as`. -/
def PortReaches (h : Host) (as : List PortAct) (s : State) : Prop :=
  ∃ s₀, socketInit (.start h) = some s₀ ∧ run portStep s₀ as = some s

/-! ## What is asked of the tables -/

/-- An entry says its own port and a socket of the protocol that has that port, and no other entry says that
socket. -/
structure EntryAgrees (s : State) (o : SockOps) (port : Nat) (b : PortBinding) : Prop where
  index : b.port.toNat = port
  sock : s.IsSock b.sock o
  srcPort : (s.host.socks b.sock).srcPort = port
  only : ∀ o', ∀ port' < MAX_PORT_BINDINGS, ∀ b', s.portBinds o' port' = some b' → b'.sock = b.sock →
    o' = o ∧ port' = port

def TablesAgree (s : State) : Prop :=
  ∀ o, ∀ port < MAX_PORT_BINDINGS, ∀ b, s.portBinds o port = some b → EntryAgrees s o port b

/-- The checks that end `udp_bind` before it enters a socket. -/
def UdpRefused (h : Host) (sock addrlen : Nat) (addr : SockaddrIn) : Prop :=
  sock = 0 ∨ ntohs addr.sinPort = 0 ∨ MAX_PORT_BINDINGS ≤ (ntohs addr.sinPort).toNat ∨
    (h.udpPortBinds (ntohs addr.sinPort).toNat).isSome ∨ (h.socks sock).family ≠ AF_INET ∨
    addrlen ≠ SOCKADDR_IN_SIZE ∨ h.kmem.freelist = []

/-- The checks that end `tcp_bind` before it enters a socket. -/
def TcpRefused (h : Host) (addrlen : Nat) (addr : Sockaddr) : Prop :=
  MAX_PORT_BINDINGS < addr.sinPort.toNat ∨ (h.tcpPortBinds (ntohs addr.sinPort).toNat).isSome ∨
    addr.saFamily.toNat ≠ AF_INET ∨ addrlen ≠ SOCKADDR_IN_SIZE ∨ h.kmem.freelist = []

instance (h : Host) (sock addrlen : Nat) (addr : SockaddrIn) : Decidable (UdpRefused h sock addrlen addr) :=
  inferInstanceAs (Decidable (_ ∨ _ ∨ _ ∨ _ ∨ _ ∨ _ ∨ _))

instance (h : Host) (addrlen : Nat) (addr : Sockaddr) : Decidable (TcpRefused h addrlen addr) :=
  inferInstanceAs (Decidable (_ ∨ _ ∨ _ ∨ _ ∨ _))

/-- A bind is for a socket that is still closed, or is refused. -/
def BindsOnce (s : State) : PortAct → Prop
  | .udpBind sock a l => (s.host.socks sock).state = .closed ∨ ∀ addr ∈ a, UdpRefused s.host sock l addr
  | .tcpBind sock a l => (s.host.socks sock).state = .closed ∨ ∀ addr ∈ a, TcpRefused s.host l addr
  | .socket .. | .tcpListen _ | .packet _ => True

instance decidableBindsOnce (s : State) : ∀ a, Decidable (BindsOnce s a)
  | .udpBind sock a l => inferInstanceAs (Decidable (_ ∨ ∀ addr ∈ a, UdpRefused s.host sock l addr))
  | .tcpBind _ a l => inferInstanceAs (Decidable (_ ∨ ∀ addr ∈ a, TcpRefused s.host l addr))
  | .socket .. | .tcpListen _ | .packet _ => isTrue trivial

/-- A socket that is bound or listens is the one that its port leads to, in the table of its own protocol. -/
def ReturnPath (s : State) : Prop :=
  ∀ a x, s.rest a = some x → (s.host.socks a).state = .bound ∨ (s.host.socks a).state = .listening →
    ∃ o b, x.ops = some o ∧ (s.host.socks a).srcPort < MAX_PORT_BINDINGS ∧
      s.portBinds o (s.host.socks a).srcPort = some b ∧ b.sock = a

/-- The segment `buf` is addressed to the port that `udp_sendto` puts in the header of what `a` sends. -/
def AnswersTo (h : Host) (a : Nat) (buf : List UInt8) : Prop :=
  ∃ sinPort kbuf dstIp, load16 buf 2 =
    (udpHeader (.ofNat (h.socks a).srcPort) sinPort kbuf h.netconf.ipAddr dstIp).srcPort

/-- Answers to `a` are queued on `a`, and on no other socket. -/
def AnswersQueued (h : Host) (qs : Nat → List Nat) (a : Nat) : Prop :=
  ∀ buf len d page, AnswersTo h a buf → parseUdpPacket buf len = some d → (∀ t, page ∉ qs t) →
    ∃ h', handleUdpPacket (h.storeFrame page d) page = .ok (0, h') ∧ Appended h h' qs a d

/-! ## Passive open -/

/-- The segment `buf` has SYN set and ACK clear on the wire, where SYN is bit 1 and ACK bit 4 of byte 13. -/
def OpensOnWire (buf : List UInt8) : Prop := byteAt buf 13 &&& 0x02 ≠ 0 ∧ byteAt buf 13 &&& 0x10 = 0

instance (buf : List UInt8) : Decidable (OpensOnWire buf) := inferInstanceAs (Decidable (_ ∧ _))

/-- The port of the segment is bound to `a`, which listens. -/
def ListensTo (h : Host) (tcpPkt : TcpFrame) (a : Nat) : Prop :=
  (h.socks a).state = .listening ∧ ∃ b, h.tcpPortBinds tcpPkt.hdr.dstPort.toNat = some b ∧ b.sock = a

/-- What `handle_tcp_packet` should do with the segment `buf`, which was parsed as `tcpPkt`. -/
structure PassiveOpen (h : Host) (buf : List UInt8) (tcpPkt : TcpFrame) : Prop where
  opens : ∀ a, OpensOnWire buf → ListensTo h tcpPkt a → ((handleTcpPacket h tcpPkt).2.socks a).state = .synRecvd
  rest : ∀ a, ¬ (OpensOnWire buf ∧ ListensTo h tcpPkt a) →
    ((handleTcpPacket h tcpPkt).2.socks a).state = (h.socks a).state

end Xv6Net.Sys
