import Xv6Net.Sys.Socket

/-!
# What is asked of the system calls

Each property is stated over one state, for the states that runs reach, and beside it the condition under which the
code has it.
-/

namespace Xv6Net.Sys

open Kernel Net Procs Lib

/-! ## Reading and writing -/

/-- A call of `socket` that gets a page and a descriptor takes an entry of the file table with both flags clear. -/
def CleanEntry (s : State) : Act → Prop
  | .call p (.socket _ _ _) => s.host.kmem.freelist ≠ [] → s.firstFd p ≠ none →
      ∀ f ∈ s.firstFree, (s.ftable f).readable = false ∧ (s.ftable f).writable = false
  | _ => True

instance decidableCleanEntry (s : State) : ∀ a, Decidable (CleanEntry s a)
  | .call p c =>
      match c with
      | .socket _ _ _ => inferInstanceAs (Decidable (s.host.kmem.freelist ≠ [] → s.firstFd p ≠ none →
          ∀ f ∈ s.firstFree, (s.ftable f).readable = false ∧ (s.ftable f).writable = false))
      | .openFile .. | .close _ | .dup _ | .pipe _ | .fork _ | .exit | .read .. | .write .. | .sock _ =>
          isTrue trivial
  | .packet _ => isTrue trivial

/-! ## Whose socket a call works on -/

/-- The socket that a descriptor of `p` stands for. -/
def State.own (s : State) (p : Slot) (fd : Int) : Option Nat :=
  ((argfd s p fd).filter fun x => (s.ftable x.2).type = .socket).map fun x => (s.ftable x.2).sock

/-- The process has a descriptor for the socket. -/
def State.Holds (s : State) (p : Slot) (sock : Nat) : Prop := ∃ i : Fin NOFILE, s.own p i.val = some sock

instance decidableHolds (s : State) (p : Slot) (sock : Nat) : Decidable (s.Holds p sock) :=
  inferInstanceAs (Decidable (∃ i : Fin NOFILE, s.own p i.val = some sock))

/-- The call returns -1 or works on the socket of the caller's own descriptor, and no other process's socket is read or
changed. -/
structure Confined (s : State) (p : Slot) (c : SockCall) : Prop where
  inRange : (sockCall s p c).inRange = true
  reads : ∀ a ∈ (sockCall s p c).reads, s.Holds p a
  works : (∃ t, (sockCall s p c).result = .ok (some (-1), t)) ∨
    (sockCall s p c).resolved ≠ none ∧ (sockCall s p c).resolved = s.own p c.fd
  changes : ∀ r t, (sockCall s p c).result = .ok (r, t) → ∀ a, ¬ s.Holds p a →
    t.host.socks a = s.host.socks a ∧ t.rest a = s.rest a

/-- The first socket in the list with the number `fd` is `a`, and `p` holds it and all sockets before it. -/
def State.Finds (s : State) (p : Slot) (fd : Int) (a : Nat) : Prop :=
  ∃ k < MAX_SOCKET_CAPACITY, s.sockList.socks k = some a ∧ s.Holds p a ∧ (∃ x, s.rest a = some x ∧ x.fd = fd) ∧
    ∀ i < k, ∃ b x, s.sockList.socks i = some b ∧ s.Holds p b ∧ s.rest b = some x ∧ x.fd ≠ fd

/-- When a call is confined. -/
def OwnCall (s : State) (p : Slot) : SockCall → Prop
  | .listen fd => ∃ a, s.Finds p fd a ∧ s.own p fd = some a
  | .accept fd => ∃ a, s.Finds p fd a ∧ (s.own p fd = some a ∨ acceptsOn (s.host.socks a) = false)
  | .bind fd .. | .sendto fd .. | .recvfrom fd .. | .send fd | .recv fd => 0 ≤ fd ∧ fd < NOFILE

/-! ## The lists of sockets -/

def SockList.Has (l : SockList) (sock : Nat) : Prop := ∃ i < MAX_SOCKET_CAPACITY, l.socks i = some sock

/-- The entries fill the first `size` places, each once. -/
def SockList.RepOk (l : SockList) : Prop :=
  ∃ n : Nat, n ≤ MAX_SOCKET_CAPACITY ∧ l.size = n ∧ (∀ i < MAX_SOCKET_CAPACITY, l.socks i ≠ none ↔ i < n) ∧
    ∀ i < n, ∀ j < n, l.socks i = l.socks j → i = j

/-- The list for the type of a socket. -/
def State.listOf (s : State) : SockOps → SockList
  | .tcp => s.tcpSockList
  | .udp => s.udpSockList

/-! ## `socket` -/

/-- The descriptors, the file table, the lists and the set of free pages are the same. -/
structure SameResources (s t : State) : Prop where
  files : t.toFiles = s.toFiles
  lists : t.sockList = s.sockList ∧ t.tcpSockList = s.tcpSockList ∧ t.udpSockList = s.udpSockList
  pages : ∀ a, a ∈ t.host.kmem.freelist ↔ a ∈ s.host.kmem.freelist

/-- A list has an entry for a free page. -/
def State.Dangling (s : State) (a : Nat) : Prop :=
  a ∈ s.host.kmem.freelist ∧ (s.sockList.Has a ∨ s.tcpSockList.Has a ∨ s.udpSockList.Has a)

/-- Descriptor `fd` is a socket of an accepted kind, with its operations and in both of its lists. -/
def Created (t : State) (p : Slot) (fd family type protocol : Int) : Prop :=
  ∃ o sock, acceptedProtocol family type protocol = some o ∧ t.own p fd = some sock ∧
    (∃ x, t.rest sock = some x ∧ x.ops = some o) ∧ t.sockList.Has sock ∧ (t.listOf o).Has sock

/-- `socket` returns, with a new socket or with -1 and nothing changed. -/
def AllOrNothing (s : State) (p : Slot) (family type protocol : Int) : Prop :=
  ∃ r t, sysSocket s p family type protocol = .ok (some r, t) ∧
    (0 ≤ r ∧ Created t p r family type protocol ∨
      r = -1 ∧ SameResources s t ∧ ∀ a, t.Dangling a → s.Dangling a)

/-- A list has the socket already, or takes it: `size` is compared with the capacity, and a null entry is looked for. -/
def SockList.Takes (l all : SockList) (sock : Nat) : Prop :=
  l.Has sock ∨ all.size ≠ MAX_SOCKET_CAPACITY ∧ l.firstNull ≠ none

/-- When `socket` is all or nothing. -/
def SocketFits (s : State) (p : Slot) (family type protocol : Int) : Prop :=
  match s.host.kmem.freelist with
  | [] => True
  | sock :: _ =>
      match acceptedProtocol family type protocol with
      | none => s.firstFree = none ∨ s.firstFd p = none
      | some o =>
          if s.firstFree ≠ none ∧ s.firstFd p ≠ none then
            s.sockList.Takes s.sockList sock ∧ (s.listOf o).Takes s.sockList sock
          else s.sockList.size = MAX_SOCKET_CAPACITY ∨ s.sockList.firstNull = none ∧ (s.listOf o).firstNull = none

end Xv6Net.Sys
