import Xv6Net.Lib.BoundedMap
import Xv6Net.Net.Arp

/-!
# The ARP cache over its history

The cache is compared with a map that has room for `ARP_CACHE_SIZE` addresses. The wait of `udp_sendto` ends when the
address it asked for is in the cache.
-/

namespace Xv6Net.Net

open Kernel Lib

/-- The cache after calls of `arp_insert` in the given order. -/
def insertAll (hist : List (UInt32 × Mac)) : List ArpEntry := hist.foldl (fun cache e => arpInsert e.1 e.2 cache) clearedCache

/-- The first `ARP_CACHE_SIZE` addresses that were ever inserted. -/
def firstAddresses (hist : List (UInt32 × Mac)) : List UInt32 := (hist.map Prod.fst).eraseDups.take ARP_CACHE_SIZE

/-- What came with the last `arp_insert` for an address. -/
def lastMac (hist : List (UInt32 × Mac)) (ip : UInt32) : Option Mac := hist.reverse.lookup ip

/-- What a cache has to say after a history of insertions. -/
structure CacheRefines (hist : List (UInt32 × Mac)) (cache : List ArpEntry) : Prop where
  found : ∀ ip, (arpLookup ip cache).isSome ↔ ip ∈ firstAddresses hist
  latest : ∀ ip mac, arpLookup ip cache = some mac → lastMac hist ip = some mac
  validFirst : ∃ n, (∀ ae ∈ cache.take n, ae.valid = true) ∧ ∀ ae ∈ cache.drop n, ae.valid = false
  distinct : ((cache.filter (·.valid)).map (·.ip)).Nodup
  others : ∀ ip mac ip', ip' ≠ ip → arpLookup ip' (arpInsert ip mac cache) = arpLookup ip' cache

/-- One received ARP packet. -/
def arpStep (h : Host) (pkt : ArpPkt) : Option Host := (arpRecv h pkt).toOption

/-- The address is known, and no call of `udp_sendto` for it waits. -/
structure Resolves (h : Host) (ip : UInt32) (mac : Mac) : Prop where
  lookup : arpLookup ip h.arpCache = some mac
  sends : ∀ sock len addrlen sinPort copyin h',
    (udpSendto h sock len addrlen (some ⟨sinPort, ip⟩) copyin).2 ≠ .ok (none, h')

/-- The cache has an entry for the address, or an entry that is not in use. -/
def HasRoom (cache : List ArpEntry) (ip : UInt32) : Prop := (arpLookup ip cache).isSome ∨ ∃ ae ∈ cache, ae.valid = false

instance (cache : List ArpEntry) (ip : UInt32) : Decidable (HasRoom cache ip) := inferInstanceAs (Decidable (_ ∨ _))

end Xv6Net.Net
