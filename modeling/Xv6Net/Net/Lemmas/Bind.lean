import Xv6Net.Net.Lemmas.Receive

/-!
# What the binds and the other calls do to sockets and tables

Both binds end in one of two ways: the call is refused, with at most the family of the socket changed, or the socket is
entered in the table of its protocol. Everything after this module is told of a bind by these two cases.
-/

namespace Xv6Net.Net

open Kernel Lib

variable {h h' : Host} {sock : Nat} {b l : Nat}

/-! ## Binding -/

/-- The socket is entered at `port`. -/
def Host.bindTo (h : Host) (sock : Nat) (port : UInt16) (k : Kmem) (ip : UInt32) (family : Nat) : Host :=
  let x := h.socks sock
  let b : PortBinding := ⟨.ofNat ip.toNat, port, sock⟩
  { h with
    kmem := k
    socks := Function.update h.socks sock
      { x with srcIp := ip, srcPort := port.toNat, family := family, state := .bound }
    tcpPortBinds := if x.proto = IPPROTO_TCP then Function.update h.tcpPortBinds port.toNat (some b) else h.tcpPortBinds
    udpPortBinds := if x.proto = IPPROTO_UDP then Function.update h.udpPortBinds port.toNat (some b)
      else h.udpPortBinds }

/-- The bind is refused, before or after `kalloc` fails. -/
def Host.refuse (h : Host) (sock : Nat) (k : Kmem) (family : Nat) : Host :=
  { h with kmem := k, socks := Function.update h.socks sock { h.socks sock with family := family } }

section

variable (h : Host) (port : UInt16) (k : Kmem) (ip : UInt32) (family : Nat)

theorem Host.bindTo_self (sock : Nat) : (h.bindTo sock port k ip family).socks sock =
    { h.socks sock with srcIp := ip, srcPort := port.toNat, family := family, state := .bound } :=
  Function.update_self ..

theorem Host.bindTo_of_ne {a : Nat} (ha : a ≠ sock) : (h.bindTo sock port k ip family).socks a = h.socks a :=
  Function.update_of_ne ha ..

end

theorem Host.refuse_self (h : Host) (sock : Nat) (k : Kmem) :
    h.refuse sock k (h.socks sock).family = { h with kmem := k } := by
  simp only [Host.refuse, Function.update_eq_self]

theorem insertPortBinding_eq (h : Host) (b : PortBinding) :
    insertPortBinding h b = { h with
      tcpPortBinds := if (h.socks b.sock).proto = IPPROTO_TCP then Function.update h.tcpPortBinds b.port.toNat (some b)
        else h.tcpPortBinds
      udpPortBinds := if (h.socks b.sock).proto = IPPROTO_UDP then Function.update h.udpPortBinds b.port.toNat (some b)
        else h.udpPortBinds } := by
  unfold insertPortBinding
  by_cases htcp : (h.socks b.sock).proto = IPPROTO_TCP
  · have hudp : (h.socks b.sock).proto ≠ IPPROTO_UDP := by rw [htcp]; decide
    simp only [if_pos htcp, if_neg hudp]
  · by_cases hudp : (h.socks b.sock).proto = IPPROTO_UDP
    · simp only [if_neg htcp, if_pos hudp]
    · simp only [if_neg htcp, if_neg hudp]

/-- What is known of a bind that went through: its port was free in the table, and a page was taken. -/
structure Binds (h h' : Host) (sock : Nat) (port : UInt16) (ip : UInt32) (family : Nat)
    (table : Nat → Option PortBinding) : Prop where
  free : table port.toNat = none
  page : ∃ p k, kalloc h.kmem = (some p, k) ∧ h' = h.bindTo sock port k ip family

/-- What is known of a bind that was refused. -/
def Refuses (h h' : Host) (sock : Nat) : Prop :=
  ∃ k family, (k = h.kmem ∨ kalloc h.kmem = (none, k)) ∧ h' = h.refuse sock k family

theorem Refuses.self (h : Host) (sock : Nat) : Refuses h h sock :=
  ⟨h.kmem, (h.socks sock).family, .inl rfl, (h.refuse_self sock h.kmem).symm⟩

namespace SameRx

theorem refuse (h : Host) (sock : Nat) (k : Kmem) (family : Nat) : SameRx h (h.refuse sock k family) := by
  have hk : SameRx h { h with kmem := k } := .of_eq rfl rfl rfl
  exact hk.trans (.setSock _ ⟨rfl, rfl, rfl⟩)

theorem bindTo (h : Host) (sock : Nat) (port : UInt16) (k : Kmem) (ip : UInt32) (family : Nat) :
    SameRx h (h.bindTo sock port k ip family) := by
  refine ⟨rfl, fun t => ?_, fun p b hb => ?_⟩
  · by_cases ht : t = sock
    · rw [ht, Host.bindTo_self]; exact ⟨rfl, rfl, rfl⟩
    · rw [Host.bindTo_of_ne _ _ _ _ _ ht]; exact ⟨rfl, rfl, rfl⟩
  · -- what is new in the table is the socket, where its protocol is UDP
    simp only [Host.bindTo] at hb
    split at hb
    · rename_i hudp
      rw [Function.update_apply] at hb
      split at hb
      · cases hb; exact .inr hudp
      · exact .inl hb
    · exact .inl hb

end SameRx

theorem udpBind_cases (h : Host) (sock : Nat) (a : Option SockaddrIn) (l : Nat) :
    (udpBind h sock a l).1 = -1 ∧ Refuses h (udpBind h sock a l).2 sock ∨
      ∃ addr ip, a = some addr ∧ (udpBind h sock a l).1 = 0 ∧ 0 < (ntohs addr.sinPort).toNat ∧
        (ntohs addr.sinPort).toNat < MAX_PORT_BINDINGS ∧
        Binds h (udpBind h sock a l).2 sock (ntohs addr.sinPort) ip (h.socks sock).family h.udpPortBinds := by
  unfold udpBind
  cases a with
  | none => exact .inl ⟨rfl, .self h sock⟩
  | some addr =>
      dsimp only
      split
      · exact .inl ⟨rfl, .self h sock⟩
      · split
        · exact .inl ⟨rfl, .self h sock⟩
        · rename_i hport
          split
          · exact .inl ⟨rfl, .self h sock⟩
          · rename_i hfree
            split
            · exact .inl ⟨rfl, .self h sock⟩
            · split
              · exact .inl ⟨rfl, .self h sock⟩
              · split
                · rename_i k hk
                  exact .inl ⟨rfl, k, (h.socks sock).family, .inr hk, (h.refuse_self sock k).symm⟩
                · rename_i p k hk
                  rw [not_or, Nat.not_le] at hport
                  refine .inr ⟨addr, if addr.sAddr = INADDR_ANY then h.netconf.ipAddr else addr.sAddr, rfl, rfl, ?_,
                    hport.2, ⟨by simpa using hfree, p, k, hk, ?_⟩⟩
                  · exact Nat.pos_of_ne_zero fun h0 => hport.1 (UInt16.toNat_inj.mp h0)
                  · simp only [insertPortBinding_eq, Host.bindTo, Function.update_self, Function.update_idem]

theorem tcpBind_cases {a : Option Sockaddr} {r : Int} (ho : tcpBind h sock a l = .ok (r, h')) :
    r = -1 ∧ Refuses h h' sock ∨
      ∃ addr ip, a = some addr ∧ r = 0 ∧ addr.sinPort.toNat ≤ MAX_PORT_BINDINGS ∧
        ((h.socks sock).proto = IPPROTO_TCP → (ntohs addr.sinPort).toNat < MAX_PORT_BINDINGS) ∧
        Binds h h' sock (ntohs addr.sinPort) ip addr.saFamily.toNat h.tcpPortBinds := by
  unfold tcpBind at ho
  cases a with
  | none => cases ho; exact .inl ⟨rfl, .self h sock⟩
  | some addr =>
      dsimp only at ho
      split at ho
      · cases ho; exact .inl ⟨rfl, .self h sock⟩
      · rename_i hport
        split at ho
        · cases ho; exact .inl ⟨rfl, .self h sock⟩
        · rename_i hfree
          -- from here on the family of the socket is changed
          split at ho
          · cases ho; exact .inl ⟨rfl, h.kmem, addr.saFamily.toNat, .inl rfl, rfl⟩
          · split at ho
            · cases ho; exact .inl ⟨rfl, h.kmem, addr.saFamily.toNat, .inl rfl, rfl⟩
            · -- the second test of the table finds what the first one found
              split at ho
              · rename_i k hk
                cases ho; exact .inl ⟨rfl, k, addr.saFamily.toNat, .inr hk, rfl⟩
              · rename_i p k hk
                generalize (if addr.sAddr = INADDR_ANY then h.netconf.ipAddr else addr.sAddr) = ip at ho
                split at ho
                · cases ho
                · rename_i hin
                  cases ho
                  refine .inr ⟨addr, ip, rfl, rfl, by omega, fun htcp => ?_, ⟨by simpa using hfree, p, k, hk, ?_⟩⟩
                  · rw [not_and, Nat.not_le] at hin
                    exact hin (by simpa using htcp)
                  · simp only [insertPortBinding_eq, Host.bindTo, Function.update_self, Function.update_idem]

/-! ## Other sockets -/

theorem Refuses.other (hr : Refuses h h' sock) (hb : b ≠ sock) : h'.socks b = h.socks b := by
  obtain ⟨k, family, -, rfl⟩ := hr
  exact Function.update_of_ne hb ..

theorem Binds.other {port : UInt16} {ip : UInt32} {family : Nat} {table : Nat → Option PortBinding}
    (hb : Binds h h' sock port ip family table) (hne : b ≠ sock) : h'.socks b = h.socks b := by
  obtain ⟨-, p, k, -, rfl⟩ := hb
  exact Host.bindTo_of_ne _ _ _ _ _ hne

theorem udpBind_other (h : Host) {sock : Nat} (hb : b ≠ sock) (a : Option SockaddrIn) (l : Nat) :
    (udpBind h sock a l).2.socks b = h.socks b := by
  rcases udpBind_cases h sock a l with ⟨-, hr⟩ | ⟨addr, ip, -, -, -, -, hbind⟩
  · exact hr.other hb
  · exact hbind.other hb

theorem tcpBind_other {a : Option Sockaddr} {r : Int} (ho : tcpBind h sock a l = .ok (r, h'))
    (hb : b ≠ sock) : h'.socks b = h.socks b := by
  rcases tcpBind_cases ho with ⟨-, hr⟩ | ⟨addr, ip, -, -, -, -, hbind⟩
  · exact hr.other hb
  · exact hbind.other hb

theorem udpSendto_socks {len : Int} {kaddr : Option SockaddrIn} {copyin : Nat → Bool × List UInt8}
    {r : Option Int} (ho : (udpSendto h sock len l kaddr copyin).2 = .ok (r, h')) : h'.socks = h.socks := by
  unfold udpSendto at ho
  split at ho
  · cases ho; rfl
  · split at ho
    · cases ho; rfl
    · split at ho
      · simp only [bind, Except.bind] at ho
        split at ho
        · cases ho
        · rename_i h₁ hreq
          obtain ⟨k, q, w, rfl, -⟩ := arpRequest_ok hreq
          cases ho; rfl
      · split at ho
        · cases ho; rfl
        · split at ho
          · cases ho; rfl
          · exact (sendKbuf_ok ho).2

theorem udpRecvfrom_other {α : Type} {len : Int} {copyout : List UInt8 → Bool × α} {x : Received α}
    (ho : udpRecvfrom h sock len copyout = some (.ok x)) (hb : b ≠ sock) : x.host.socks b = h.socks b := by
  unfold udpRecvfrom dequeueUdpPacket at ho
  split at ho
  · cases ho
  · rename_i pkt h₁ hd
    split at hd
    · cases hd
    · cases hd
      simp only [bind, Except.bind, Option.some.injEq] at ho
      split at ho
      · cases ho
      · cases ho; exact setRx_of_ne _ _ _ hb

end Xv6Net.Net
