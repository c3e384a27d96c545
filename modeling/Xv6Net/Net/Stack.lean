import Xv6Net.Net.Packet
import Xv6Net.Virtio.Tx

/-!
# The network stack of one host

Received frames go through `handle_packet` to the queues of the sockets, and the system calls on UDP sockets work on
the same queues. A function that can stop the kernel returns in `Except Stop`. `transmit_packet` is the sequential
one here: no other call is in progress, and the device takes, sends and returns the chain while the call polls.
-/

namespace Xv6Net.Net

open Kernel Lib Virtio

def AF_INET : Nat := 2
def MAX_PORT_BINDINGS : Nat := 512
def INADDR_ANY : UInt32 := 1
def ACK : UInt8 := 0x40
def SYN : UInt8 := 0x08

def SOCK_STREAM : Nat := 1
def SOCK_DGRAM : Nat := 2

def SOCKADDR_IN_SIZE : Nat := 16

-- `zero` is the state of a page that `memset` has cleared
inductive SockState where
  | zero
  | closed
  | bound
  | listening
  | synSent
  | synRecvd
  | established
deriving DecidableEq, Repr

structure Socket where
  srcIp : UInt32
  srcPort : Nat
  proto : Nat
  type : Nat
  family : Nat
  state : SockState
  rxHead : Option Nat
  rxTail : Option Nat
deriving DecidableEq

structure PortBinding where
  ipAddr : UInt16
  port : UInt16
  sock : Nat
deriving DecidableEq

structure UdpFrame extends Datagram where
  next : Option Nat
deriving DecidableEq

structure SockaddrIn where
  sinPort : UInt16
  sAddr : UInt32
deriving DecidableEq

/-- The same address with its first field, which `udp_bind` does not read. -/
structure Sockaddr extends SockaddrIn where
  saFamily : UInt16
deriving DecidableEq

structure ArpEntry where
  ip : UInt32
  mac : Mac
  valid : Bool
deriving DecidableEq

structure NetState where
  ipAddr : UInt32
  macAddr : Mac

/-- What the network code of a host reads and writes. Sockets and UDP frames are named by their addresses, and the
address 0 is the null pointer. -/
structure Host where
  kmem : Kmem
  netconf : NetState
  arpCache : List ArpEntry
  socks : Nat → Socket
  udpFrames : Nat → UdpFrame
  udpPortBinds : Nat → Option PortBinding
  -- read without a bounds check: from 512 on it is whatever lies behind the array
  tcpPortBinds : Nat → Option PortBinding
  txq : Virtq
  packetBuf : Nat
  -- the frames the device has sent, in order
  wire : List (List UInt8)

/-! ## Sending -/

/-- `transmit_packet` with no other call in progress. -/
def transmitPacket (h : Host) (pktData : List UInt8) : Except Stop Host :=
  match kalloc h.kmem with
  | (none, _) => .error (.panic "failed to allocate header\n")
  | (some hdr, k) =>
      match allocDesc h.txq with
      | (hdrDesc, q) =>
          match allocDesc q with
          | (pktDesc, q) =>
              match hdrDesc, pktDesc with
              | some hd, some pd => do
                  let q := ((q.fillTx hd pd hdr h.packetBuf pktData.length).setAvail hd).bumpAvail
                  -- here the device uses the chain, and polling ends
                  let q ← freeDesc (q.pushUsed ⟨hd, 0⟩) hd
                  let q ← freeDesc q pd
                  .ok { h with kmem := k, txq := q, wire := h.wire ++ [pktData] }
              | _, _ => .ok { h with kmem := k, txq := q }

/-! ## ARP -/

def arpLookup (ip : UInt32) (cache : List ArpEntry) : Option Mac :=
  (cache.find? fun ae => ae.valid && ae.ip == ip).map (·.mac)

/-- `arp_insert`, the loop from an entry on. -/
def arpInsert (ip : UInt32) (mac : Mac) : List ArpEntry → List ArpEntry
  | [] => []
  | ae :: rest =>
      if ae.ip = ip then { ae with mac := mac, valid := true } :: rest
      else if ae.valid = false then ⟨ip, mac, true⟩ :: rest
      else ae :: arpInsert ip mac rest

/-- The frame of an ARP packet, as it is built in a page and passed to `transmit_packet`. -/
def arpFrame (page : Nat → UInt8) (dst src : Mac) (arp : ArpPkt) : List UInt8 :=
  slice (write (buildEth page dst src PROTO_ARP) ETH_HDR_SIZE arp.encode) 0 ARP_PACKET_SIZE

def broadcastMac : Mac := .replicate 6 0xFF

/-- `kalloc` fills the pages it hands out with 5. -/
def freshPage : Nat → UInt8 := fun _ => 5

/-- The packet both `arp_request` and the reply of `arp_recv` fill in. -/
def arpPacket (netconf : NetState) (oper : UInt16) (tha : Mac) (tpa : UInt32) : ArpPkt where
  htype := htons ARP_HTYPE_ETH
  ptype := htons PROTO_IPV4
  hlen := ARP_HLEN
  plen := ARP_PLEN
  oper := htons oper
  sha := netconf.macAddr
  spa := netconf.ipAddr
  tha := tha
  tpa := tpa

def arpRequest (h : Host) (targetIp : UInt32) : Except Stop Host :=
  match kalloc h.kmem with
  | (none, k) => .ok { h with kmem := k }
  | (some frame, k) => do
      let arp := arpPacket h.netconf ARP_OP_REQUEST broadcastMac targetIp
      let h ← transmitPacket { h with kmem := k } (arpFrame freshPage broadcastMac h.netconf.macAddr arp)
      let k ← kfree h.kmem frame
      .ok { h with kmem := k }

/-- `arp_recv`. A request for another host returns without freeing the page of the reply. -/
def arpRecv (h : Host) (pkt : ArpPkt) : Except Stop Host :=
  if ntohs pkt.oper = ARP_OP_REQUEST then
    match kalloc h.kmem with
    | (none, k) => .ok { h with kmem := k }
    | (some frame, k) =>
        let h := { h with kmem := k, arpCache := arpInsert pkt.spa pkt.sha h.arpCache }
        if pkt.tpa = h.netconf.ipAddr ∨ pkt.tpa = 0xFFFFFFFF then do
          let reply := arpPacket h.netconf ARP_OP_REPLY pkt.sha pkt.spa
          let h ← transmitPacket h (arpFrame freshPage pkt.sha h.netconf.macAddr reply)
          let k ← kfree h.kmem frame
          .ok { h with kmem := k }
        else .ok h
  else if ntohs pkt.oper = ARP_OP_REPLY then
    .ok { h with arpCache := arpInsert pkt.spa pkt.sha h.arpCache }
  else .ok h

/-! ## Receive queues -/

/-- A packet parsed into the cleared page `udp`. -/
def Host.storeFrame (h : Host) (udp : Nat) (d : Datagram) : Host :=
  { h with udpFrames := Function.update h.udpFrames udp ⟨d, none⟩ }

def setNext (frames : Nat → UdpFrame) (pkt : Nat) (next : Option Nat) : Nat → UdpFrame :=
  Function.update frames pkt { frames pkt with next := next }

/-- `sock->rx_head = rxHead; sock->rx_tail = rxTail`. -/
def setRx (socks : Nat → Socket) (sock : Nat) (rxHead rxTail : Option Nat) : Nat → Socket :=
  Function.update socks sock { socks sock with rxHead := rxHead, rxTail := rxTail }

def enqueueUdpPacket (h : Host) (pkt sock : Nat) : Except Stop Host :=
  let frames := setNext h.udpFrames pkt none
  match (h.socks sock).rxHead with
  | none => .ok { h with udpFrames := frames, socks := setRx h.socks sock (some pkt) (some pkt) }
  | some rxHead =>
      match (h.socks sock).rxTail with
      | none => .error .fault
      | some tail =>
          .ok { h with
            udpFrames := setNext frames tail (some pkt)
            socks := setRx h.socks sock (some rxHead) (some pkt) }

def dequeueUdpPacket (h : Host) (sock : Nat) : Option Nat × Host :=
  match (h.socks sock).rxHead with
  | none => (none, h)
  | some ret =>
      let rxHead := (h.udpFrames ret).next
      let rxTail := if rxHead = none then none else (h.socks sock).rxTail
      (some ret, { h with socks := setRx h.socks sock rxHead rxTail })

def handleUdpPacket (h : Host) (udpPkt : Nat) : Except Stop (Int × Host) :=
  let dstPort := (h.udpFrames udpPkt).hdr.dstPort.toNat
  if MAX_PORT_BINDINGS ≤ dstPort then .ok (-1, h)
  else
    match h.udpPortBinds dstPort with
    | none => .ok (-1, h)
    | some bind =>
        if (h.socks bind.sock).proto = IPPROTO_UDP then do .ok (0, ← enqueueUdpPacket h udpPkt bind.sock)
        else .ok (0, h)

/-- `handle_tcp_packet`, with its return value. It compares the type of the socket with a protocol number. -/
def handleTcpPacket (h : Host) (tcpPkt : TcpFrame) : Int × Host :=
  let flags := tcpPkt.hdr.flags
  match h.tcpPortBinds tcpPkt.hdr.dstPort.toNat with
  | none => (-1, h)
  | some bind =>
      let sock := h.socks bind.sock
      if flags &&& SYN ≠ 0 ∧ flags &&& ACK ≠ 0 then (0, h)
      else if flags &&& SYN ≠ 0 then
        if sock.type ≠ IPPROTO_TCP then (-1, h)
        else if sock.state ≠ .listening then (-1, h)
        else (0, { h with socks := Function.update h.socks bind.sock { sock with state := .synRecvd } })
      else (0, h)

/-! ## Receiving -/

/-- `handle_ip4_packet`. The test for a failed `kalloc` compares a pointer with `< 0` and never holds. -/
def handleIp4Packet (h : Host) (ip4Pkt : Ip4Frame) : Except Stop Host :=
  if ip4Pkt.hdr.protocol.toNat = IPPROTO_TCP then
    match kalloc h.kmem with
    | (none, _) => .error .fault
    | (some _, k) =>
        let h := { h with kmem := k }
        match parseTcpPacket ip4Pkt.payload ip4Pkt.payloadLen.toNat with
        | some tcp => .ok (handleTcpPacket h tcp).2
        | none => .ok h
  else if ip4Pkt.hdr.protocol.toNat = IPPROTO_UDP then
    match kalloc h.kmem with
    | (none, _) => .error .fault
    | (some udp, k) =>
        let h := { h with kmem := k }
        match parseUdpPacket ip4Pkt.payload ip4Pkt.payloadLen.toNat with
        | some d => do
            let (_, h) ← handleUdpPacket (h.storeFrame udp d) udp
            .ok h
        | none => .ok h
  else .ok h

/-- The part of `handle_packet` between its allocations and its frees, for a parsed frame. -/
def handleFrame (h : Host) (ethFrame : EthFrame) (ip4Pkt : Option Nat) : Except Stop Host :=
  if ntohs ethFrame.hdr.type = PROTO_IPV4 then
    match ip4Pkt with
    | none => .error .fault
    | some _ =>
        match parseIp4Packet ethFrame.payload ethFrame.payloadLen.toNat with
        | some ip => handleIp4Packet h ip
        | none => .ok h
  else if ntohs ethFrame.hdr.type = PROTO_ARP then arpRecv h (ArpPkt.decode ethFrame.payload)
  else .ok h

def handlePacket (h : Host) (packet : List UInt8) : Except Stop Host :=
  match kalloc h.kmem with
  | (none, _) => .error .fault
  | (some eth, k) =>
      match kalloc k with
      | (ip4Pkt, k) => do
          let ethFrame ← parseEthPacket packet
          let h ← handleFrame { h with kmem := k } ethFrame ip4Pkt
          let k ← kfree h.kmem eth
          let k ← kfree k (ip4Pkt.getD 0)
          .ok { h with kmem := k }

/-! ## System calls on UDP sockets -/

def insertPortBinding (h : Host) (bind : PortBinding) : Host :=
  if (h.socks bind.sock).proto = IPPROTO_TCP then
    { h with tcpPortBinds := Function.update h.tcpPortBinds bind.port.toNat (some bind) }
  else if (h.socks bind.sock).proto = IPPROTO_UDP then
    { h with udpPortBinds := Function.update h.udpPortBinds bind.port.toNat (some bind) }
  else h

/-- `udp_bind`, with its return value; `insert_port_binding` never fails. -/
def udpBind (h : Host) (sock : Nat) (sockAddress : Option SockaddrIn) (addrlen : Nat) : Int × Host :=
  match sockAddress with
  | none => (-1, h)
  | some addr =>
      let port := ntohs addr.sinPort
      if sock = 0 then (-1, h)
      else if port = 0 ∨ MAX_PORT_BINDINGS ≤ port.toNat then (-1, h)
      else if (h.udpPortBinds port.toNat).isSome then (-1, h)
      else if (h.socks sock).family ≠ AF_INET then (-1, h)
      else if addrlen ≠ SOCKADDR_IN_SIZE then (-1, h)
      else
        match kalloc h.kmem with
        | (none, k) => (-1, { h with kmem := k })
        | (some _, k) =>
            let ip := if addr.sAddr = INADDR_ANY then h.netconf.ipAddr else addr.sAddr
            let h := { h with
              kmem := k
              socks := Function.update h.socks sock { h.socks sock with srcIp := ip } }
            let h := insertPortBinding h ⟨.ofNat ip.toNat, port, sock⟩
            (0, { h with
              socks := Function.update h.socks sock { h.socks sock with srcPort := port.toNat, state := .bound } })

/-- The bytes from `pkt->payload` on, in a page that was cleared before the packet was parsed into it. -/
def Datagram.bytes (d : Datagram) : List UInt8 := (List.range d.payloadLen).map (byteAt d.payload)

/-- What `udp_recvfrom` returns, the packet that it took off the queue, and what `copyout` leaves behind. -/
structure Received (α : Type) where
  ret : Int
  pkt : Nat
  dst : α
  host : Host

/-- `udp_recvfrom`, with `copyout` as a function of the bytes; `none` while it sleeps on an empty queue. -/
def udpRecvfrom {α : Type} (h : Host) (sock : Nat) (len : Int) (copyout : List UInt8 → Bool × α) :
    Option (Except Stop (Received α)) :=
  match dequeueUdpPacket h sock with
  | (none, _) => none
  | (some pkt, h) =>
      let d := (h.udpFrames pkt).toDatagram
      let n : Int := if (d.payloadLen : Int) < len then d.payloadLen else len
      -- not `n` bytes are copied, but `pkt->payload_len`
      let (copied, dst) := copyout d.bytes
      some do
        let k ← kfree h.kmem pkt
        .ok ⟨if copied then n else -1, pkt, dst, { h with kmem := k }⟩

/-- The frame that `udp_sendto` builds in one page and passes to `transmit_packet`. -/
def udpSendtoFrame (page : Nat → UInt8) (srcPort sinPort : UInt16) (kbuf : List UInt8) (netconf : NetState)
    (dstIp : UInt32) (dstMac : Mac) : List UInt8 :=
  let page := buildUdp page (ETH_HDR_SIZE + IP4_HDR_SIZE) srcPort sinPort kbuf netconf.ipAddr dstIp
  let page := buildIp4 page ETH_HDR_SIZE (ntohl netconf.ipAddr) (ntohl dstIp) (.ofNat IPPROTO_UDP)
    (.ofNat (kbuf.length + UDP_HDR_SIZE + IP4_HDR_SIZE))
  let page := buildEth page dstMac netconf.macAddr PROTO_IPV4
  slice page 0 (kbuf.length + UDP_HDR_SIZE + IP4_HDR_SIZE + ETH_HDR_SIZE)

/-- `udp_sendto` from where the message is in `kbuf`. -/
def sendKbuf (h : Host) (sock : Nat) (addr : SockaddrIn) (dstMac : Mac) (kbuf : List UInt8) :
    Except Stop (Option Int × Host) :=
  if 1500 < kbuf.length then .error .overrun
  else
    match kalloc h.kmem with
    | (none, _) => .error .fault
    | (some eth, k) => do
        let frame := udpSendtoFrame freshPage (.ofNat (h.socks sock).srcPort) addr.sinPort kbuf h.netconf addr.sAddr dstMac
        let h ← transmitPacket { h with kmem := k } frame
        let k ← kfree h.kmem eth
        .ok (some 0, { h with kmem := k })

/-- `udp_sendto`, with the address that `copyin` fetches, `none` where that fails, and `copyin` of the message as a
function of its length argument, with what it copies also where it fails in the end. The result is the number of bytes that
are written to `kbuf`, and what the call does: `none` while it waits for an answer to its ARP request. -/
def udpSendto (h : Host) (sock : Nat) (len : Int) (addrlen : Nat) (kaddr : Option SockaddrIn)
    (copyin : Nat → Bool × List UInt8) : Nat × Except Stop (Option Int × Host) :=
  if addrlen < SOCKADDR_IN_SIZE then (0, .ok (some (-1), h))
  else
    match kaddr with
    | none => (0, .ok (some (-1), h))
    | some addr =>
        match arpLookup addr.sAddr h.arpCache with
        | none => (0, do .ok (none, ← arpRequest h addr.sAddr))
        | some dstMac =>
            if 1500 < len then (0, .ok (some (-1), h))
            else
              -- the length becomes a `uint64`, so a negative one is not stopped by the test above
              match copyin (len % 2 ^ 64).toNat with
              | (false, kbuf) => (kbuf.length, .ok (some (-1), h))
              | (true, kbuf) => (kbuf.length, sendKbuf h sock addr dstMac kbuf)

/-! ## System calls on TCP sockets -/

/-- `tcp_bind`, with its return value. The range check is made on the port in network order, so the index may be
beyond the table; a binding is then stored behind the array. -/
def tcpBind (h : Host) (sock : Nat) (sockAddress : Option Sockaddr) (addrlen : Nat) : Except Stop (Int × Host) :=
  match sockAddress with
  | none => .ok (-1, h)
  | some addr =>
      let port := ntohs addr.sinPort
      if MAX_PORT_BINDINGS < addr.sinPort.toNat then .ok (-1, h)
      else if (h.tcpPortBinds port.toNat).isSome then .ok (-1, h)
      else
        let h := { h with
          socks := Function.update h.socks sock { h.socks sock with family := addr.saFamily.toNat } }
        if addr.saFamily.toNat ≠ AF_INET then .ok (-1, h)
        else if addrlen ≠ SOCKADDR_IN_SIZE then .ok (-1, h)
        else if (h.tcpPortBinds port.toNat).isSome then .ok (-1, h)
        else
          match kalloc h.kmem with
          | (none, k) => .ok (-1, { h with kmem := k })
          | (some _, k) =>
              let ip := if addr.sAddr = INADDR_ANY then h.netconf.ipAddr else addr.sAddr
              let h := { h with
                kmem := k
                socks := Function.update h.socks sock { h.socks sock with srcIp := ip } }
              if (h.socks sock).proto = IPPROTO_TCP ∧ MAX_PORT_BINDINGS ≤ port.toNat then .error .overrun
              else
                let h := insertPortBinding h ⟨.ofNat ip.toNat, port, sock⟩
                .ok (0, { h with
                  socks := Function.update h.socks sock { h.socks sock with
                    srcPort := port.toNat
                    family := addr.saFamily.toNat
                    state := .bound } })

def tcpListen (h : Host) (sock : Nat) : Int × Host :=
  if (h.socks sock).type ≠ SOCK_STREAM then (-1, h)
  else if (h.socks sock).state ≠ .bound then (-1, h)
  else (0, { h with socks := Function.update h.socks sock { h.socks sock with state := .listening } })

end Xv6Net.Net
