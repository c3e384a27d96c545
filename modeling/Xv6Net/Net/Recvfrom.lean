import Xv6Net.Net.Spec
import Xv6Net.Vm.Copy

/-!
# `udp_recvfrom` with the memory of its caller

The lengths of what is returned and of what is copied are computed apart from each other.
-/

namespace Xv6Net.Net

open Kernel Lib Vm

/-- The call takes the first packet off the queue, returns the smaller one of the two lengths, and copies so many
bytes of the payload to the buffer and nothing else. -/
def RespectsBuffer (h : Host) (qs : Nat → List Nat) (sock : Nat) (pt : PageTable) (mem : Memory) (buf len : Nat) :
    Prop :=
  ∃ pkt rest h' mem', qs sock = pkt :: rest ∧
    udpRecvfrom h sock len (copyoutTo pt mem buf) = some (.ok ⟨min (h.udpFrames pkt).payloadLen len, pkt, mem', h'⟩) ∧
    Queues h' (Function.update qs sock rest) ∧ h'.udpFrames = h.udpFrames ∧
    Copied pt mem mem' buf ((h.udpFrames pkt).bytes.take (min (h.udpFrames pkt).payloadLen len))

end Xv6Net.Net
