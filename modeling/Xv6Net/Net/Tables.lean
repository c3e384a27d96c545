import Xv6Net.Lib.Logged
import Xv6Net.Net.Stack

/-!
# The port tables and their indices

The binds and the handlers of packets once more, with a log of every index that they use on `tcp_port_binds` and
`udp_port_binds`.
-/

namespace Xv6Net.Net

open Kernel Lib

inductive PortTable where
  | tcp
  | udp
deriving DecidableEq

/-- Computations with the indices that they use. -/
abbrev Indexing := Logged (PortTable × Nat)

def readBinding (h : Host) : (table : PortTable) → (port : Nat) → Indexing (Option PortBinding)
  | .tcp, port => .use (.tcp, port) (h.tcpPortBinds port)
  | .udp, port => .use (.udp, port) (h.udpPortBinds port)

/-- `insert_port_binding`. -/
def insertPortBindingLogged (h : Host) (bind : PortBinding) : Indexing Host :=
  if (h.socks bind.sock).proto = IPPROTO_TCP then
    .use (.tcp, bind.port.toNat) { h with tcpPortBinds := Function.update h.tcpPortBinds bind.port.toNat (some bind) }
  else if (h.socks bind.sock).proto = IPPROTO_UDP then
    .use (.udp, bind.port.toNat) { h with udpPortBinds := Function.update h.udpPortBinds bind.port.toNat (some bind) }
  else pure h

/-- `udp_bind`. -/
def udpBindLogged (h : Host) (sock : Nat) (sockAddress : Option SockaddrIn) (addrlen : Nat) : Indexing (Int × Host) :=
  match sockAddress with
  | none => pure (-1, h)
  | some addr =>
      let port := ntohs addr.sinPort
      if sock = 0 then pure (-1, h)
      else if port = 0 ∨ MAX_PORT_BINDINGS ≤ port.toNat then pure (-1, h)
      else do
        let taken ← readBinding h .udp port.toNat
        if taken.isSome then pure (-1, h)
        else if (h.socks sock).family ≠ AF_INET then pure (-1, h)
        else if addrlen ≠ SOCKADDR_IN_SIZE then pure (-1, h)
        else
          match kalloc h.kmem with
          | (none, k) => pure (-1, { h with kmem := k })
          | (some _, k) => do
              let ip := if addr.sAddr = INADDR_ANY then h.netconf.ipAddr else addr.sAddr
              let h := { h with
                kmem := k
                socks := Function.update h.socks sock { h.socks sock with srcIp := ip } }
              let h ← insertPortBindingLogged h ⟨.ofNat ip.toNat, port, sock⟩
              pure (0, { h with
                socks := Function.update h.socks sock { h.socks sock with srcPort := port.toNat, state := .bound } })

/-- `tcp_bind`, which looks at the port twice. -/
def tcpBindLogged (h : Host) (sock : Nat) (sockAddress : Option Sockaddr) (addrlen : Nat) :
    Indexing (Except Stop (Int × Host)) :=
  match sockAddress with
  | none => pure (.ok (-1, h))
  | some addr =>
      let port := ntohs addr.sinPort
      if MAX_PORT_BINDINGS < addr.sinPort.toNat then pure (.ok (-1, h))
      else do
        let taken ← readBinding h .tcp port.toNat
        if taken.isSome then pure (.ok (-1, h))
        else
          let h := { h with
            socks := Function.update h.socks sock { h.socks sock with family := addr.saFamily.toNat } }
          if addr.saFamily.toNat ≠ AF_INET then pure (.ok (-1, h))
          else if addrlen ≠ SOCKADDR_IN_SIZE then pure (.ok (-1, h))
          else do
            let inUse ← readBinding h .tcp port.toNat
            if inUse.isSome then pure (.ok (-1, h))
            else
              match kalloc h.kmem with
              | (none, k) => pure (.ok (-1, { h with kmem := k }))
              | (some _, k) => do
                  let ip := if addr.sAddr = INADDR_ANY then h.netconf.ipAddr else addr.sAddr
                  let h := { h with
                    kmem := k
                    socks := Function.update h.socks sock { h.socks sock with srcIp := ip } }
                  let h' ← insertPortBindingLogged h ⟨.ofNat ip.toNat, port, sock⟩
                  if (h.socks sock).proto = IPPROTO_TCP ∧ MAX_PORT_BINDINGS ≤ port.toNat then pure (.error .overrun)
                  else pure (.ok (0, { h' with
                    socks := Function.update h'.socks sock { h'.socks sock with
                      srcPort := port.toNat
                      family := addr.saFamily.toNat
                      state := .bound } }))

/-- `handle_udp_packet`, which reads the entry once more for the socket. -/
def handleUdpPacketLogged (h : Host) (udpPkt : Nat) : Indexing (Except Stop (Int × Host)) :=
  let dstPort := (h.udpFrames udpPkt).hdr.dstPort.toNat
  if MAX_PORT_BINDINGS ≤ dstPort then pure (.ok (-1, h))
  else do
    let first ← readBinding h .udp dstPort
    if first = none then pure (.ok (-1, h))
    else
      match ← readBinding h .udp dstPort with
      | none => pure (.error .fault)
      | some bind =>
          if (h.socks bind.sock).proto = IPPROTO_UDP then
            pure (do .ok (0, ← enqueueUdpPacket h udpPkt bind.sock))
          else pure (.ok (0, h))

/-- `handle_tcp_packet`. -/
def handleTcpPacketLogged (h : Host) (tcpPkt : TcpFrame) : Indexing (Int × Host) := do
  let flags := tcpPkt.hdr.flags
  match ← readBinding h .tcp tcpPkt.hdr.dstPort.toNat with
  | none => pure (-1, h)
  | some bind =>
      let sock := h.socks bind.sock
      if flags &&& SYN ≠ 0 ∧ flags &&& ACK ≠ 0 then pure (0, h)
      else if flags &&& SYN ≠ 0 then
        if sock.type ≠ IPPROTO_TCP then pure (-1, h)
        else if sock.state ≠ .listening then pure (-1, h)
        else pure (0, { h with socks := Function.update h.socks bind.sock { sock with state := .synRecvd } })
      else pure (0, h)

/-- Every index that is used is below the size of the tables. -/
def InRange {α : Type} (x : Indexing α) : Prop := x.All fun i => i.2 < MAX_PORT_BINDINGS

/-! ## Binds that fail -/

/-- The sockets, the port tables and the free pages are the same. -/
structure NothingChanged (h h' : Host) : Prop where
  socks : h'.socks = h.socks
  udpPortBinds : h'.udpPortBinds = h.udpPortBinds
  tcpPortBinds : h'.tcpPortBinds = h.tcpPortBinds
  freelist : h'.kmem.freelist = h.kmem.freelist

/-- Where `tcp_bind` fails after it has stored the family, the family is the one that the socket has. -/
def FamilyKept (h : Host) (sock : Nat) (sockAddress : Option Sockaddr) (addrlen : Nat) : Prop :=
  ∀ addr ∈ sockAddress, addr.sinPort.toNat ≤ MAX_PORT_BINDINGS → h.tcpPortBinds (ntohs addr.sinPort).toNat = none →
    addr.saFamily.toNat ≠ AF_INET ∨ addrlen ≠ SOCKADDR_IN_SIZE ∨ h.kmem.freelist = [] →
    (h.socks sock).family = addr.saFamily.toNat

end Xv6Net.Net
