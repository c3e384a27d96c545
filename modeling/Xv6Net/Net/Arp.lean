import Xv6Net.Lib.Run
import Xv6Net.Net.Stack

/-!
# Hosts that resolve addresses on one network

Every host runs the stack. A frame that a host has put on its wire may be given to any host, any number of times, in
any order, or to none.
-/

namespace Xv6Net.Net

open Kernel Virtio

def ARP_CACHE_SIZE : Nat := 16

/-- `arp_cache` before anything is stored in it. -/
def clearedCache : List ArpEntry := .replicate ARP_CACHE_SIZE ⟨0, .replicate 6 0, false⟩

/-- `net_init`, with the MAC address that the device has. -/
def netInit (h : Host) (mac : Mac) : Host :=
  { h with
    netconf := { h.netconf with macAddr := mac }
    arpCache := arpInsert h.netconf.ipAddr mac h.arpCache }

variable {ι : Type}

/-- Hosts that have run `net_init` and sent nothing yet. -/
def bootLan (hosts : ι → Host) (mac : ι → Mac) : ι → Host :=
  fun i => netInit { hosts i with arpCache := clearedCache, wire := [] } (mac i)

-- `deliver j n i`: host `i` receives the frame that host `j` sent as number `n`. In `other` the rest of the kernel of
-- host `i` takes and frees pages and descriptors.
inductive LanAct (ι : Type) where
  | request (i : ι) (targetIp : UInt32)
  | deliver (j : ι) (n : Nat) (i : ι)
  | other (i : ι) (kmem : Kmem) (txq : Virtq)

/-- A host that stops takes no further part. -/
def lanStep [DecidableEq ι] (hosts : ι → Host) : LanAct ι → Option (ι → Host)
  | .request i targetIp =>
      match arpRequest (hosts i) targetIp with
      | .ok h => some (Function.update hosts i h)
      | .error _ => none
  | .deliver j n i =>
      match (hosts j).wire[n]? with
      | none => none
      | some frame =>
          match handlePacket (hosts i) frame with
          | .ok h => some (Function.update hosts i h)
          | .error _ => none
  | .other i kmem txq => some (Function.update hosts i { hosts i with kmem := kmem, txq := txq })

end Xv6Net.Net
