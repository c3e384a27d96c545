import Xv6Net.Net.Stack
import Xv6Net.Vm.Copy

/-!
# `udp_sendto` with the memory of its caller
-/

namespace Xv6Net.Net

open Kernel Lib Virtio Vm

/-- The fields of a `struct sockaddr_in` that `udp_sendto` reads. -/
def SockaddrIn.decode (kaddr : List UInt8) : SockaddrIn := ⟨load16 kaddr 2, load32 kaddr 4⟩

/-- `udp_sendto` of a process with this page table and memory. -/
def udpSendtoFrom (h : Host) (sock : Nat) (pt : PageTable) (mem : Memory) (buf : Nat) (len : Int) (dest addrlen : Nat) :
    Nat × Except Stop (Option Int × Host) :=
  let kaddr := copyinFrom pt mem dest SOCKADDR_IN_SIZE
  udpSendto h sock len addrlen (if kaddr.1 then some (.decode kaddr.2) else none) (copyinFrom pt mem buf)

/-- At most 1500 bytes are written to `kbuf`, and the call returns: it fails and sends nothing, or it sends one frame that
the network can carry, with the lengths of its headers. -/
def SendsWhole (h : Host) (len : Int) (r : Nat × Except Stop (Option Int × Host)) : Prop :=
  r.1 ≤ 1500 ∧ ∃ ret h', r.2 = .ok (some ret, h') ∧
    (ret = -1 ∧ h'.wire = h.wire ∨
      ∃ frame : List UInt8, h'.wire = h.wire ++ [frame] ∧ (frame.length : Int) = 42 + len ∧ frame.length ≤ 1514 ∧
        (be16 frame 16 : Int) = 28 + len ∧ (be16 frame 38 : Int) = 8 + len)

/-- A negative length meets a buffer of at most 1500 mapped bytes, and one that is admitted and mapped leaves room for the
headers in a frame for which there are pages and descriptors. -/
def Sendable (h : Host) (pt : PageTable) (buf : Nat) (len : Int) (dest addrlen : Nat) : Prop :=
  SOCKADDR_IN_SIZE ≤ addrlen → pt.Maps dest SOCKADDR_IN_SIZE →
    (len < 0 → ¬ pt.Maps buf 1501) ∧
      (0 ≤ len → len ≤ 1500 → pt.Maps buf len.toNat →
        len ≤ 1472 ∧ 2 ≤ h.kmem.freelist.length ∧ h.txq.TwoFree)

end Xv6Net.Net
