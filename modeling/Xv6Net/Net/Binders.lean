import Xv6Net.Lib.Run
import Xv6Net.Net.Stack

/-!
# `udp_bind` in several processes at once

The test for a free port and the insertion of the binding are steps of their own, and other calls may come between
them. Only the insertion is made under `port_binds_lock`. Calls are numbered, and each one is for a UDP socket.
-/

namespace Xv6Net.Net

open Kernel Lib

/-- Where a call of `udp_bind` stands. -/
inductive BindPc where
  | entered
  | tested
  | filled (bind : PortBinding)
  | inserted
  | returned (r : Int)
deriving DecidableEq

structure BindCall where
  sock : Nat
  addr : SockaddrIn
  addrlen : Nat
  pc : BindPc
deriving DecidableEq

def BindCall.port (c : BindCall) : Nat := (ntohs c.addr.sinPort).toNat

/-- One step of a call, which has not returned yet. -/
def bindAdvance (h : Host) (c : BindCall) : Option (Host × BindPc) :=
  let port := ntohs c.addr.sinPort
  match c.pc with
  | .entered =>
      if c.sock = 0 then some (h, .returned (-1))
      else if port = 0 ∨ MAX_PORT_BINDINGS ≤ port.toNat then some (h, .returned (-1))
      else if (h.udpPortBinds port.toNat).isSome then some (h, .returned (-1))
      else some (h, .tested)
  | .tested =>
      if (h.socks c.sock).family ≠ AF_INET then some (h, .returned (-1))
      else if c.addrlen ≠ SOCKADDR_IN_SIZE then some (h, .returned (-1))
      else
        match kalloc h.kmem with
        | (none, k) => some ({ h with kmem := k }, .returned (-1))
        | (some _, k) =>
            let ip := if c.addr.sAddr = INADDR_ANY then h.netconf.ipAddr else c.addr.sAddr
            some ({ h with
              kmem := k
              socks := Function.update h.socks c.sock { h.socks c.sock with srcIp := ip } },
              .filled ⟨.ofNat ip.toNat, port, c.sock⟩)
  | .filled bind => some (insertPortBinding h bind, .inserted)
  | .inserted =>
      some ({ h with
        socks := Function.update h.socks c.sock { h.socks c.sock with srcPort := port.toNat, state := .bound } },
        .returned 0)
  | .returned _ => none

structure BindSys where
  host : Host
  calls : Nat → Option BindCall

def BindSys.boot (h : Host) : BindSys := ⟨h, fun _ => none⟩

def BindSys.setCall (s : BindSys) (i : Nat) (c : BindCall) : BindSys :=
  { s with calls := Function.update s.calls i (some c) }

inductive BindAct where
  | call (i sock : Nat) (addr : SockaddrIn) (addrlen : Nat)
  | advance (i : Nat)
  | packet (frame : List UInt8)

/-- The socket was made for UDP, or is the null pointer. -/
def Host.MayBind (h : Host) (sock : Nat) : Prop :=
  sock = 0 ∨ (h.socks sock).proto = IPPROTO_UDP ∧ (h.socks sock).type = SOCK_DGRAM

instance (h : Host) (sock : Nat) : Decidable (h.MayBind sock) := inferInstanceAs (Decidable (_ ∨ _))

/-- A call begins, a call makes a step, or a frame arrives. -/
def bindStep (s : BindSys) : BindAct → Option BindSys
  | .call i sock addr addrlen =>
      if s.calls i = none ∧ s.host.MayBind sock then some (s.setCall i ⟨sock, addr, addrlen, .entered⟩) else none
  | .advance i => do
      let c ← s.calls i
      let (h, pc) ← bindAdvance s.host c
      some ({ s with host := h }.setCall i { c with pc := pc })
  | .packet frame => (handlePacket s.host frame).toOption.map fun h => { s with host := h }

/-! ## What is asked of the port table -/

/-- For every port at most one call has returned 0, and the binding of that port is the one of that call's socket. -/
structure BindSys.Exclusive (s : BindSys) : Prop where
  once : ∀ i j c d, s.calls i = some c → s.calls j = some d → c.pc = .returned 0 → d.pc = .returned 0 →
    c.port = d.port → i = j
  kept : ∀ i c, s.calls i = some c → c.pc = .returned 0 → ∃ b, s.host.udpPortBinds c.port = some b ∧ b.sock = c.sock

/-- An insertion finds the port as the test has found it. -/
def InsertsFree (s : BindSys) : BindAct → Prop
  | .advance i => ∀ c ∈ s.calls i, ∀ b, c.pc = .filled b → s.host.udpPortBinds c.port = none
  | .call .. | .packet _ => True

instance decidableInsertsFree (s : BindSys) : ∀ a, Decidable (InsertsFree s a)
  | .advance i =>
      match h : s.calls i with
      | none => isTrue fun _ hc => by rw [h] at hc; cases hc
      | some c =>
          match hp : c.pc with
          | .filled b =>
              decidable_of_iff (s.host.udpPortBinds c.port = none) ⟨fun hf d hd _ _ => by rw [h] at hd; cases hd; exact hf,
                fun hf => hf c h b hp⟩
          | .entered | .tested | .inserted | .returned _ =>
              isTrue fun d hd b hb => by rw [h] at hd; cases hd; rw [hp] at hb; cases hb
  | .call .. => isTrue trivial
  | .packet _ => isTrue trivial

/-- No call is on its way. -/
def BindSys.Quiet (s : BindSys) : Prop := ∀ i c, s.calls i = some c → ∃ r, c.pc = .returned r

/-- A call that no other call comes in between of. -/
def bindThrough : Nat → Host → BindCall → Host × BindPc
  | 0, h, c => (h, c.pc)
  | n + 1, h, c =>
      match bindAdvance h c with
      | none => (h, c.pc)
      | some (h, pc) => bindThrough n h { c with pc := pc }

end Xv6Net.Net
