import Xv6Net.Net.Lemmas.Bind
import Xv6Net.Net.Tables

/-!
# Indices of the port tables and failed binds

The logged functions compute what the functions of the stack do.
-/

namespace Xv6Net.Net

open Kernel Lib

variable {h h' : Host} {sock addrlen : Nat}

@[simp] theorem readBinding_udp (h : Host) (port : Nat) : readBinding h .udp port = .use (.udp, port) (h.udpPortBinds port) :=
  rfl

@[simp] theorem readBinding_tcp (h : Host) (port : Nat) : readBinding h .tcp port = .use (.tcp, port) (h.tcpPortBinds port) :=
  rfl

theorem insertPortBindingLogged_val (h : Host) (bind : PortBinding) :
    (insertPortBindingLogged h bind).val = insertPortBinding h bind := by
  unfold insertPortBindingLogged insertPortBinding
  split
  · rfl
  · split <;> rfl

theorem udpBindLogged_val (h : Host) (sock : Nat) (addr : Option SockaddrIn) (addrlen : Nat) :
    (udpBindLogged h sock addr addrlen).val = udpBind h sock addr addrlen := by
  cases addr with
  | none => rfl
  | some addr =>
      rcases hk : kalloc h.kmem with ⟨_ | p, k⟩ <;>
        simp only [udpBindLogged, udpBind, hk, readBinding_udp, Logged.val_ite, ↓Logged.val_use_bind, Logged.val_bind,
          Logged.val_pure, insertPortBindingLogged_val]

theorem tcpBindLogged_val (h : Host) (sock : Nat) (addr : Option Sockaddr) (addrlen : Nat) :
    (tcpBindLogged h sock addr addrlen).val = tcpBind h sock addr addrlen := by
  cases addr with
  | none => rfl
  | some addr =>
      rcases hk : kalloc h.kmem with ⟨_ | p, k⟩ <;>
        simp only [tcpBindLogged, tcpBind, hk, readBinding_tcp, Logged.val_ite, ↓Logged.val_use_bind, Logged.val_bind,
          Logged.val_pure, insertPortBindingLogged_val]

theorem handleUdpPacketLogged_val (h : Host) (udpPkt : Nat) :
    (handleUdpPacketLogged h udpPkt).val = handleUdpPacket h udpPkt := by
  cases hb : h.udpPortBinds (h.udpFrames udpPkt).hdr.dstPort.toNat <;>
    simp [handleUdpPacketLogged, handleUdpPacket, hb, Logged.val_ite]

theorem handleTcpPacketLogged_val (h : Host) (tcpPkt : TcpFrame) :
    (handleTcpPacketLogged h tcpPkt).val = handleTcpPacket h tcpPkt := by
  cases hb : h.tcpPortBinds tcpPkt.hdr.dstPort.toNat <;>
    simp [handleTcpPacketLogged, handleTcpPacket, hb, Logged.val_ite]

/-! ## Ranges -/

theorem insertPortBindingLogged_inRange {bind : PortBinding} (hp : bind.port.toNat < MAX_PORT_BINDINGS) :
    InRange (insertPortBindingLogged h bind) := by
  simp [InRange, insertPortBindingLogged, Logged.all_ite, hp]

/-- Past the check of the port every index is that port. -/
theorem udpBindLogged_inRange (h : Host) (sock : Nat) (addr : Option SockaddrIn) (addrlen : Nat) :
    InRange (udpBindLogged h sock addr addrlen) := by
  cases addr with
  | none => exact Logged.all_pure _
  | some addr =>
      simp only [InRange, udpBindLogged, readBinding_udp, Logged.all_ite, ↓Logged.all_use_bind, Logged.all_pure]
      refine ⟨fun _ => trivial, fun _ => ⟨fun _ => trivial, fun hport => ?_⟩⟩
      have hp : (ntohs addr.sinPort).toNat < MAX_PORT_BINDINGS := by omega
      refine ⟨hp, fun _ => trivial, fun _ => ⟨fun _ => trivial, fun _ => ⟨fun _ => trivial, fun _ => ?_⟩⟩⟩
      rcases kalloc h.kmem with ⟨_ | p, k⟩
      · exact Logged.all_pure _
      · exact (Logged.all_bind ..).mpr ⟨insertPortBindingLogged_inRange hp, Logged.all_pure _⟩

/-- The port is checked as it stands in the address and used in the order of the host. -/
theorem tcpBindLogged_inRange_iff (h : Host) (sock : Nat) (addr : Option Sockaddr) (addrlen : Nat) :
    InRange (tcpBindLogged h sock addr addrlen) ↔
      ∀ a ∈ addr, a.sinPort.toNat ≤ MAX_PORT_BINDINGS → (ntohs a.sinPort).toNat < MAX_PORT_BINDINGS := by
  cases addr with
  | none => simp [InRange, tcpBindLogged]
  | some addr =>
      simp only [InRange, tcpBindLogged, readBinding_tcp, Logged.all_ite, ↓Logged.all_use_bind, Logged.all_pure,
        Option.mem_some_iff, forall_eq', not_lt, imp_true_iff, true_and]
      refine forall_congr' fun _ => ⟨And.left, fun hp => ⟨hp, fun _ _ _ => ⟨hp, fun _ => ?_⟩⟩⟩
      rcases kalloc h.kmem with ⟨_ | p, k⟩
      · exact Logged.all_pure _
      · refine (Logged.all_bind ..).mpr ⟨insertPortBindingLogged_inRange hp, ?_⟩
        simp [Logged.all_ite]

theorem handleUdpPacketLogged_inRange (h : Host) (udpPkt : Nat) : InRange (handleUdpPacketLogged h udpPkt) := by
  simp only [InRange, handleUdpPacketLogged, readBinding_udp, Logged.all_ite, ↓Logged.all_use_bind, Logged.all_pure,
    imp_true_iff, true_and, not_le]
  intro hp
  refine ⟨hp, fun _ => ⟨hp, ?_⟩⟩
  cases h.udpPortBinds (h.udpFrames udpPkt).hdr.dstPort.toNat with
  | none => exact Logged.all_pure _
  | some bind => simp [Logged.all_ite]

/-- The handler does not check the port. -/
theorem handleTcpPacketLogged_inRange_iff (h : Host) (tcpPkt : TcpFrame) :
    InRange (handleTcpPacketLogged h tcpPkt) ↔ tcpPkt.hdr.dstPort.toNat < MAX_PORT_BINDINGS := by
  simp only [InRange, handleTcpPacketLogged, readBinding_tcp, ↓Logged.all_use_bind, and_iff_left_iff_imp]
  intro _
  cases h.tcpPortBinds tcpPkt.hdr.dstPort.toNat with
  | none => exact Logged.all_pure _
  | some bind => simp [Logged.all_ite]

/-! ## Binds that fail -/

theorem NothingChanged.rfl (h : Host) : NothingChanged h h := ⟨.refl _, .refl _, .refl _, .refl _⟩

theorem nothingChanged_refuse {k : Kmem} (hk : k.freelist = h.kmem.freelist) (family : Nat) :
    NothingChanged h (h.refuse sock k family) ↔ (h.socks sock).family = family := by
  constructor
  · intro hn
    have hsock := congrFun hn.socks sock
    simp only [Host.refuse, Function.update_self] at hsock
    exact (congrArg Socket.family hsock).symm
  · rintro rfl
    exact ⟨by rw [Host.refuse_self], .refl _, .refl _, hk⟩

/-- `udp_bind` stores nothing before its last check. -/
theorem udpBind_failed {addr : Option SockaddrIn} (hf : udpBind h sock addr addrlen = (-1, h')) : NothingChanged h h' := by
  unfold udpBind at hf
  cases addr with
  | none => cases hf; exact .rfl h
  | some addr =>
      dsimp only at hf
      split at hf
      · cases hf; exact .rfl h
      split at hf
      · cases hf; exact .rfl h
      split at hf
      · cases hf; exact .rfl h
      split at hf
      · cases hf; exact .rfl h
      split at hf
      · cases hf; exact .rfl h
      split at hf
      · next k hk => cases hf; exact ⟨.refl _, .refl _, .refl _, (kalloc_eq_none hk).1⟩
      · simp at hf

/-- The checks of `tcp_bind` that stand behind the store of the family fail. -/
theorem tcpBind_late {addr : Sockaddr} (sock : Nat) (hport : addr.sinPort.toNat ≤ MAX_PORT_BINDINGS)
    (hfree : h.tcpPortBinds (ntohs addr.sinPort).toNat = none)
    (hlate : addr.saFamily.toNat ≠ AF_INET ∨ addrlen ≠ SOCKADDR_IN_SIZE ∨ h.kmem.freelist = []) :
    ∃ k, k.freelist = h.kmem.freelist ∧
      tcpBind h sock (some addr) addrlen = .ok (-1, h.refuse sock k addr.saFamily.toNat) := by
  simp only [tcpBind, if_neg (Nat.not_lt.mpr hport), hfree, Option.isSome_none, Bool.false_eq_true, if_false]
  split
  · exact ⟨h.kmem, rfl, rfl⟩
  split
  · exact ⟨h.kmem, rfl, rfl⟩
  · next hfamily hlen =>
    have hnil : h.kmem.freelist = [] := by tauto
    rcases hk : kalloc h.kmem with ⟨p, k⟩
    obtain rfl : p = none := by simpa [hk] using kalloc_nil hnil
    exact ⟨k, (kalloc_eq_none hk).1, rfl⟩

theorem tcpBind_failed_cases {addr : Sockaddr} (hf : tcpBind h sock (some addr) addrlen = .ok (-1, h')) :
    h' = h ∨ addr.sinPort.toNat ≤ MAX_PORT_BINDINGS ∧ h.tcpPortBinds (ntohs addr.sinPort).toNat = none ∧
      (addr.saFamily.toNat ≠ AF_INET ∨ addrlen ≠ SOCKADDR_IN_SIZE ∨ h.kmem.freelist = []) := by
  unfold tcpBind at hf
  dsimp only at hf
  split at hf
  · cases hf; exact .inl rfl
  split at hf
  · cases hf; exact .inl rfl
  · next hport hfree =>
    refine .inr ⟨Nat.not_lt.mp hport, by simpa using hfree, ?_⟩
    by_contra hlate
    simp only [not_or, not_not] at hlate
    obtain ⟨hfamily, hlen, hfreelist⟩ := hlate
    simp only [hfamily, hlen, ne_eq, not_true, if_false] at hf
    split at hf
    · next k hk => exact hfreelist (freelist_eq_nil hk)
    · generalize (if addr.sAddr = INADDR_ANY then h.netconf.ipAddr else addr.sAddr) = ip at hf
      split at hf
      · cases hf
      · simp at hf

theorem tcpBind_failed_iff (h : Host) (sock : Nat) (addr : Option Sockaddr) (addrlen : Nat) :
    (∀ h', tcpBind h sock addr addrlen = .ok (-1, h') → NothingChanged h h') ↔ FamilyKept h sock addr addrlen := by
  cases addr with
  | none => simp [tcpBind, FamilyKept, NothingChanged.rfl]
  | some addr =>
      constructor
      · rintro hn _ ⟨⟩ hport hfree hlate
        obtain ⟨k, hk, hf⟩ := tcpBind_late sock hport hfree hlate
        exact (nothingChanged_refuse hk _).mp (hn _ hf)
      · intro hkept h' hf
        rcases tcpBind_failed_cases hf with rfl | ⟨hport, hfree, hlate⟩
        · exact .rfl h'
        · obtain ⟨k, hk, hf'⟩ := tcpBind_late sock hport hfree hlate
          obtain rfl : h.refuse sock k addr.saFamily.toNat = h' := by simpa [hf'] using hf
          exact (nothingChanged_refuse hk _).mpr (hkept addr rfl hport hfree hlate)

end Xv6Net.Net
