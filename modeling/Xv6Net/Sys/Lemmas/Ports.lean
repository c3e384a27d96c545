import Xv6Net.Net.Lemmas.Bind
import Xv6Net.Net.Lemmas.Packet
import Xv6Net.Net.Lemmas.Settled
import Xv6Net.Sys.Lemmas.Socket
import Xv6Net.Sys.Ports

/-!
# The port tables along runs

An entry is made once and stays. So what a step does to the tables is told in two cases: they are the same, or a free
entry gets a socket. A socket leaves the state `CLOSED` by being entered, and only so.
-/

namespace Xv6Net.Sys

open Kernel Net Procs Lib

variable {s t : State} {h' : Host} {qs qs' : Nat → List Nat} {sock : Nat} {k : Kmem} {h : Host} {a port : Nat}
  {b : PortBinding} {o o' : SockOps} {x : Socket}

/-! ## The invariant -/

/-- The fields of a socket with the given operations. -/
def SockKind (x : Socket) : Option SockOps → Prop
  | none => x.type ≠ IPPROTO_TCP ∧ x.state = .zero
  | some o => x.proto = o.proto ∧ x.type = o.type ∧ (x.state = .closed ∨ x.state = .bound ∨ x.state = .listening)

theorem SockKind.type_ne : ∀ {o : Option SockOps}, SockKind x o → x.type ≠ IPPROTO_TCP
  | none, h => h.1
  | some .udp, h => by rw [h.2.1]; decide
  | some .tcp, h => by rw [h.2.1]; decide

theorem newSocket_kind (h : Host) : ∀ o, SockKind (newSocket h o) o
  | none => ⟨show (0 : Nat) ≠ IPPROTO_TCP by decide, rfl⟩
  | some _ => ⟨rfl, rfl, .inl rfl⟩

/-- A socket that was entered is in the table of its protocol, at its port. -/
def Entered (s : State) (o : SockOps) (a : Nat) : Prop :=
  (s.host.socks a).srcPort < MAX_PORT_BINDINGS ∧
    ∃ b, s.portBinds o (s.host.socks a).srcPort = some b ∧ b.sock = a

structure PortInv (s : State) (qs : Nat → List Nat) : Prop where
  sane : Sane s.host qs
  files : ∀ f, (s.ftable f).ref = 0 → (s.ftable f).type = .none
  live : ∀ a, s.rest a ≠ none → a ∉ s.host.kmem.freelist
  idle : ∀ a, s.rest a = none → qs a = []
  kind : ∀ a x, s.rest a = some x → SockKind (s.host.socks a) x.ops
  path : ∀ a o, s.IsSock a o → (s.host.socks a).state ≠ .closed → Entered s o a
  slots : ∀ o, ∀ port < MAX_PORT_BINDINGS, ∀ b, s.portBinds o port = some b →
    b.port.toNat = port ∧ s.IsSock b.sock o ∧ (s.host.socks b.sock).state ≠ .closed

theorem isSock_iff : s.IsSock a o ↔ ∃ x, s.rest a = some x ∧ x.ops = some o := by
  simp only [State.IsSock, Option.bind_eq_some_iff]

theorem State.IsSock.rest_ne (h : s.IsSock a o) : s.rest a ≠ none := by
  obtain ⟨x, hx, -⟩ := isSock_iff.mp h
  rw [hx]; exact nofun

theorem State.IsSock.unique (h : s.IsSock a o) (h' : s.IsSock a o') : o = o' :=
  Option.some.inj (h.symm.trans h')

theorem PortInv.fields (h : PortInv s qs) (ha : s.IsSock a o) : SockKind (s.host.socks a) (some o) := by
  obtain ⟨x, hx, ho⟩ := isSock_iff.mp ha
  rw [← ho]; exact h.kind a x hx

/-! ## Steps that leave the tables alone -/

/-- What a socket has of its past: only a bound one may have come to listen. -/
structure SameSock (x y : Socket) : Prop where
  proto : y.proto = x.proto
  type : y.type = x.type
  srcPort : y.srcPort = x.srcPort
  state : y.state = x.state ∨ x.state = .bound ∧ y.state = .listening

theorem SameSock.closed_iff {y : Socket} (h : SameSock x y) : y.state = .closed ↔ x.state = .closed := by
  rcases h.state with he | ⟨hx, hy⟩
  · rw [he]
  · rw [hx, hy]; exact iff_of_false nofun nofun

theorem SameSock.kind {y : Socket} (h : SameSock x y) : ∀ {o : Option SockOps}, SockKind x o → SockKind y o
  | none, ⟨htype, hstate⟩ => by
      refine ⟨by rw [h.type]; exact htype, ?_⟩
      rcases h.state with he | ⟨hx, -⟩
      · exact he.trans hstate
      · rw [hx] at hstate; cases hstate
  | some o, ⟨hproto, htype, hstate⟩ => by
      refine ⟨h.proto.trans hproto, h.type.trans htype, ?_⟩
      rcases h.state with he | ⟨-, hy⟩
      · rw [he]; exact hstate
      · exact .inr (.inr hy)

/-- The tables and the sockets that there are stay. -/
structure PortsKept (s : State) (h' : Host) : Prop where
  udp : h'.udpPortBinds = s.host.udpPortBinds
  tcp : h'.tcpPortBinds = s.host.tcpPortBinds
  socks : ∀ a, s.rest a ≠ none → SameSock (s.host.socks a) (h'.socks a)

theorem PortsKept.portBinds (hk : PortsKept s h') : (s.withHost h').portBinds = s.portBinds := by
  funext o
  cases o
  · exact hk.udp
  · exact hk.tcp

theorem PortInv.kept (h : PortInv s qs) (hk : PortsKept s h') (hset : Settled s.host h' qs qs') :
    PortInv (s.withHost h') qs' := by
  obtain ⟨n, hlost⟩ := hset.lost
  refine ⟨hset.sane, h.files, fun a ha hf => h.live a ha (hlost.sub a hf), fun a ha => ?_, fun a x hx => ?_,
    fun a o ha hst => ?_, fun o port hp b hb => ?_⟩
  · -- the queues that grow are those of sockets in the table
    rcases hset.bound a with hq | ⟨port, hp, b, hb, rfl⟩
    · rw [hq]; exact h.idle a ha
    · exact absurd ha (h.slots .udp port hp b hb).2.1.rest_ne
  · exact (hk.socks a (by rw [show s.rest a = some x from hx]; exact nofun)).kind (h.kind a x hx)
  · have hsame := hk.socks a ha.rest_ne
    obtain ⟨hp, b, hb, hs⟩ := h.path a o ha (mt hsame.closed_iff.mpr hst)
    unfold Entered
    rw [hk.portBinds]
    simp only [State.withHost, hsame.srcPort]
    exact ⟨hp, b, hb, hs⟩
  · rw [hk.portBinds] at hb
    obtain ⟨hi, hs, hst⟩ := h.slots o port hp b hb
    exact ⟨hi, hs, mt (hk.socks b.sock hs.rest_ne).closed_iff.mp hst⟩

/-! ## Binding -/

theorem PortInv.refused (h : PortInv s qs) (hr : Refuses s.host h' sock) :
    PortInv (s.withHost h') qs ∧ (s.withHost h').portBinds = s.portBinds := by
  obtain ⟨k, family, hk, rfl⟩ := hr
  have hkept : PortsKept s (s.host.refuse sock k family) := by
    refine ⟨rfl, rfl, fun a _ => ?_⟩
    by_cases ha : a = sock
    · subst ha
      simp only [Host.refuse, Function.update_self]
      exact ⟨rfl, rfl, rfl, .inl rfl⟩
    · simp only [Host.refuse, Function.update_of_ne ha]
      exact ⟨rfl, rfl, rfl, .inl rfl⟩
  have hlost : Lost 0 s.host.kmem (s.host.refuse sock k family).kmem := by
    rcases hk with rfl | hk
    · exact .refl h.sane.nodup
    · exact .kalloc_none h.sane.nodup hk
  exact ⟨h.kept hkept (.of_same h.sane (.refuse ..) hlost), hkept.portBinds⟩

/-- The tables with one more entry. -/
def State.enter (s : State) (o : SockOps) (port : Nat) (b : PortBinding) : SockOps → Nat → Option PortBinding :=
  Function.update s.portBinds o (Function.update (s.portBinds o) port (some b))

theorem State.enter_eq_some {port' : Nat} {b' : PortBinding}
    (h : s.enter o port b o' port' = some b') : o' = o ∧ port' = port ∧ b' = b ∨ s.portBinds o' port' = some b' := by
  unfold State.enter at h
  by_cases ho : o' = o
  · subst ho
    rw [Function.update_self, Function.update_apply] at h
    split at h
    · rename_i hp
      exact .inl ⟨rfl, hp, (Option.some.inj h).symm⟩
    · exact .inr h
  · rw [Function.update_of_ne ho] at h
    exact .inr h

theorem State.enter_self (o : SockOps) (port : Nat) (b : PortBinding) : s.enter o port b o port = some b := by
  unfold State.enter; rw [Function.update_self, Function.update_self]

/-- The entries that were there stay. -/
theorem State.enter_of_some {port' : Nat} {b' : PortBinding}
    (hfree : s.portBinds o port = none) (h : s.portBinds o' port' = some b') :
    s.enter o port b o' port' = some b' := by
  unfold State.enter
  by_cases ho : o' = o
  · subst ho
    rw [Function.update_self, Function.update_of_ne, h]
    rintro rfl
    rw [hfree] at h; cases h
  · rw [Function.update_of_ne ho]; exact h

theorem bindTo_portBinds (hp : (s.host.socks sock).proto = o.proto) (port : UInt16) (k : Kmem)
    (ip : UInt32) (family : Nat) :
    (s.withHost (s.host.bindTo sock port k ip family)).portBinds =
      s.enter o port.toNat ⟨.ofNat ip.toNat, port, sock⟩ := by
  have hne : IPPROTO_TCP ≠ IPPROTO_UDP := by decide
  funext o'
  cases o <;> cases o' <;>
    simp [State.enter, State.portBinds, State.withHost, Host.bindTo, hp, SockOps.proto, hne, hne.symm]

/-- The socket of a bind that goes through. -/
theorem PortInv.bound (h : PortInv s qs) {port : UInt16} {ip : UInt32} {family : Nat}
    (hs : s.IsSock sock o) (hport : port.toNat < MAX_PORT_BINDINGS)
    (hb : Binds s.host h' sock port ip family (s.portBinds o)) :
    PortInv (s.withHost h') qs ∧
      (s.withHost h').portBinds = s.enter o port.toNat ⟨.ofNat ip.toNat, port, sock⟩ := by
  obtain ⟨hfree, p, k, hk, rfl⟩ := hb
  obtain ⟨hproto, htype, -⟩ := h.fields hs
  have htab := bindTo_portBinds hproto port k ip family
  have hset : Settled s.host (s.host.bindTo sock port k ip family) qs qs :=
    .of_same h.sane (.bindTo ..) (.kalloc h.sane.nodup hk)
  obtain ⟨n, hlost⟩ := hset.lost
  have hself := s.host.bindTo_self port k ip family sock
  have hother : ∀ a, a ≠ sock → (s.host.bindTo sock port k ip family).socks a = s.host.socks a :=
    fun a ha => Host.bindTo_of_ne _ _ _ _ _ ha
  refine ⟨⟨hset.sane, h.files, fun a ha hf => h.live a ha (hlost.sub a hf), h.idle, fun a x hx => ?_,
    fun a o' ha hst => ?_, fun o' port' hp b hb => ?_⟩, htab⟩
  · by_cases ha : a = sock
    · subst ha
      obtain ⟨x', hx', ho⟩ := isSock_iff.mp hs
      obtain rfl : x' = x := Option.some.inj (hx'.symm.trans hx)
      rw [ho]
      simp only [State.withHost, hself]
      exact ⟨hproto, htype, .inr (.inl rfl)⟩
    · simp only [State.withHost, hother a ha]
      exact h.kind a x hx
  · unfold Entered
    rw [htab]
    by_cases hsock : a = sock
    · subst hsock
      obtain rfl : o = o' := hs.unique ha
      simp only [State.withHost, hself]
      exact ⟨hport, _, State.enter_self .., rfl⟩
    · simp only [State.withHost, hother a hsock] at hst ⊢
      obtain ⟨hp, b, hb, hbs⟩ := h.path a o' ha hst
      exact ⟨hp, b, State.enter_of_some hfree hb, hbs⟩
  · rw [htab] at hb
    rcases State.enter_eq_some hb with ⟨rfl, rfl, rfl⟩ | hb
    · refine ⟨rfl, hs, ?_⟩
      simp only [State.withHost, hself]
      exact nofun
    · obtain ⟨hi, hs', hst⟩ := h.slots o' port' hp b hb
      refine ⟨hi, hs', ?_⟩
      by_cases hsock : b.sock = sock
      · simp only [State.withHost, hsock, hself]; exact nofun
      · simp only [State.withHost, hother _ hsock]; exact hst

/-! ## When a bind is refused -/

/-- One check of a bind. -/
theorem check_iff {c : Prop} [Decidable c] {x : Int × Host} : (if c then (-1, h) else x).1 = -1 ↔ c ∨ x.1 = -1 := by
  split
  · rename_i hc; exact iff_of_true rfl (.inl hc)
  · rename_i hc; exact (or_iff_right hc).symm

theorem check_ok_iff {c : Prop} [Decidable c] {x : Except Stop (Int × Host)} :
    (if c then .ok (-1, h) else x).map Prod.fst = .ok (-1) ↔ c ∨ x.map Prod.fst = .ok (-1) := by
  split
  · rename_i hc; exact iff_of_true rfl (.inl hc)
  · rename_i hc; exact (or_iff_right hc).symm

theorem udpBind_ret_iff (h : Host) (sock l : Nat) (addr : SockaddrIn) :
    (udpBind h sock (some addr) l).1 = -1 ↔ UdpRefused h sock l addr := by
  unfold udpBind UdpRefused
  simp only [check_iff, or_assoc]
  rcases hk : kalloc h.kmem with ⟨p | p, k⟩
  · simp only [freelist_eq_nil hk]
  · simp [(kalloc_eq_some hk).1]

theorem tcpBind_ret_iff (h : Host) (sock l : Nat) (addr : Sockaddr) :
    (tcpBind h sock (some addr) l).map Prod.fst = .ok (-1) ↔ TcpRefused h l addr := by
  unfold tcpBind TcpRefused
  simp only [check_ok_iff]
  rcases hk : kalloc h.kmem with ⟨p | p, k⟩
  · simp [freelist_eq_nil hk, Except.map]
  · have hend : ∀ (c : Prop) [Decidable c] (x : Host),
        (if c then .error .overrun else .ok ((0 : Int), x) : Except Stop (Int × Host)).map Prod.fst ≠ .ok (-1) := by
      intro c _ x
      split <;> simp [Except.map]
    simp only [(kalloc_eq_some hk).1, reduceCtorEq, or_false, iff_false_intro (hend _ _)]
    -- the second test of the table finds what the first one found
    by_cases htaken : (h.tcpPortBinds (ntohs addr.sinPort).toNat).isSome = true
    · simp only [htaken, true_or, or_true]
    · simp only [htaken, Bool.false_eq_true, or_false]

/-! ## `socket` -/

/-- A page of the free list gets a socket, or is given back. -/
theorem PortInv.socketed (h : PortInv s qs) {o : Option SockOps} {r : Option SockRest}
    (hk : kalloc s.host.kmem = (some sock, k)) {k' : Kmem} (hnd : k'.freelist.Nodup)
    (hsub : ∀ p ∈ k'.freelist, p ∈ s.host.kmem.freelist) (hs : Socketed s t sock k' o r)
    (hr : r = none ∨ sock ∉ k'.freelist ∧ ∃ fd, r = some ⟨fd, o, false⟩)
    (hfiles : ∀ f, (t.ftable f).ref = 0 → (t.ftable f).type = .none) :
    PortInv t qs ∧ t.portBinds = s.portBinds := by
  have hmem : sock ∈ s.host.kmem.freelist := by rw [(kalloc_eq_some hk).1]; exact List.mem_cons_self
  have hnew : s.rest sock = none := by
    by_contra hne
    exact h.live sock hne hmem
  have hqs : qs sock = [] := h.idle sock hnew
  have hself : t.host.socks sock = newSocket s.host o := by rw [hs.host]; exact Function.update_self ..
  have hother : ∀ a, a ≠ sock → t.host.socks a = s.host.socks a ∧ t.rest a = s.rest a := fun a ha =>
    ⟨by rw [hs.host]; exact Function.update_of_ne ha .., by rw [hs.rest]; exact Function.update_of_ne ha ..⟩
  have htab : t.portBinds = s.portBinds := by
    funext o'
    cases o' <;> simp only [State.portBinds, hs.host]
  have hframes : t.host.udpFrames = s.host.udpFrames := by rw [hs.host]
  have hfree : t.host.kmem = k' := by rw [hs.host]
  -- sockets other than the new one are as they were
  have hold : ∀ a o', a ≠ sock → (t.IsSock a o' ↔ s.IsSock a o') := fun a o' ha => by
    simp only [State.IsSock, (hother a ha).2]
  refine ⟨⟨⟨⟨fun a => ?_, h.sane.queues.disjoint⟩, fun a p hp hf => ?_, ?_⟩, hfiles, fun a ha hf => ?_, fun a ha => ?_,
    fun a x hx => ?_, fun a o' ha hst => ?_, fun o' port hp b hb => ?_⟩, htab⟩
  · by_cases ha : a = sock
    · subst ha
      have hrx : (newSocket s.host o).rxHead = none ∧ (newSocket s.host o).rxTail = none := by
        cases o <;> exact ⟨rfl, rfl⟩
      rw [hself, hrx.1, hrx.2, hqs]
      exact IsQueue.nil _
    · rw [hframes, (hother a ha).1]
      exact h.sane.queues.queue a
  · rw [hfree] at hf
    exact h.sane.used a p hp (hsub p hf)
  · rw [hfree]; exact hnd
  · rw [hfree] at hf
    by_cases hsock : a = sock
    · subst hsock
      rcases hr with rfl | ⟨hout, -⟩
      · exact ha hs.rest_self
      · exact hout hf
    · exact h.live a (by rw [← (hother a hsock).2]; exact ha) (hsub a hf)
  · by_cases hsock : a = sock
    · rw [hsock]; exact hqs
    · exact h.idle a (by rw [← (hother a hsock).2]; exact ha)
  · by_cases hsock : a = sock
    · subst hsock
      rw [hs.rest_self] at hx
      rcases hr with rfl | ⟨-, fd, rfl⟩
      · cases hx
      · cases hx
        rw [hself]; exact newSocket_kind s.host o
    · rw [(hother a hsock).1]
      exact h.kind a x (by rw [← (hother a hsock).2]; exact hx)
  · by_cases hsock : a = sock
    · -- a new socket is closed
      subst hsock
      obtain ⟨x, hx, ho⟩ := isSock_iff.mp ha
      rw [hs.rest_self] at hx
      rcases hr with rfl | ⟨-, fd, rfl⟩
      · cases hx
      · cases hx
        rw [hself, show o = some o' from ho] at hst
        exact absurd rfl hst
    · unfold Entered
      rw [(hother a hsock).1] at hst ⊢
      rw [htab]
      exact h.path a o' ((hold a o' hsock).mp ha) hst
  · rw [htab] at hb
    obtain ⟨hi, hs', hst⟩ := h.slots o' port hp b hb
    have hsock : b.sock ≠ sock := by
      rintro he
      rw [he] at hs'
      exact hs'.rest_ne hnew
    rw [(hother _ hsock).1]
    exact ⟨hi, (hold _ o' hsock).mpr hs', hst⟩

theorem PortInv.socket (h : PortInv s qs) {p : Slot} {family type protocol : Int} {r : Option Int}
    (hs : sysSocket s p family type protocol = .ok (r, t)) : PortInv t qs ∧ t.portBinds = s.portBinds := by
  rcases hk : kalloc s.host.kmem with ⟨sock | sock, k⟩
  · simp only [sysSocket, hk, Except.ok.injEq, Prod.mk.injEq] at hs
    obtain ⟨-, rfl⟩ := hs
    have hkept : PortsKept s { s.host with kmem := k } := ⟨rfl, rfl, fun a _ => ⟨rfl, rfl, rfl, .inl rfl⟩⟩
    have hset : Settled s.host { s.host with kmem := k } qs qs :=
      .of_same h.sane (.of_eq rfl rfl rfl) (.kalloc_none h.sane.nodup hk)
    exact ⟨h.kept hkept hset, hkept.portBinds⟩
  · obtain ⟨hheld, hnd, hf⟩ := kalloc_held h.sane.nodup hk
    by_cases hno : s.firstFree = none ∨ s.firstFd p = none
    · obtain ⟨t', k', ht, hfiles, hlist, hsock⟩ := sysSocket_fails family type protocol hk h.files hno
      cases ht.symm.trans hs
      refine h.socketed hk (by rw [hlist]; exact h.sane.nodup) (fun q hq => by rw [← hlist]; exact hq) hsock (.inl rfl) ?_
      rw [congrArg Files.ftable hfiles]
      exact h.files
    · rw [not_or] at hno
      obtain ⟨f, hff⟩ := Option.ne_none_iff_exists'.mp hno.1
      obtain ⟨fd, hfd⟩ := Option.ne_none_iff_exists'.mp hno.2
      obtain ⟨t', ht, -, htable, hsock⟩ := sysSocket_returns family type protocol hk hff hfd
      cases ht.symm.trans hs
      refine h.socketed hk hnd (fun q hq => by rw [hf]; exact List.mem_cons_of_mem _ hq) hsock
        (.inr ⟨hheld.not_free, _, rfl⟩) fun g hg => ?_
      rw [htable] at hg ⊢
      by_cases hgf : g = f
      · rw [hgf, Function.update_self] at hg; cases hg
      · rw [Function.update_of_ne hgf] at hg ⊢
        exact h.files g hg

/-! ## Listening and receiving -/

theorem PortInv.listen (h : PortInv s qs) (sock : Nat) :
    PortInv (s.withHost (tcpListen s.host sock).2) qs ∧
      (s.withHost (tcpListen s.host sock).2).portBinds = s.portBinds := by
  unfold tcpListen
  split
  · exact ⟨h, rfl⟩
  · split
    · exact ⟨h, rfl⟩
    · rename_i hbound
      have hkept : PortsKept s { s.host with
          socks := Function.update s.host.socks sock { s.host.socks sock with state := .listening } } := by
        refine ⟨rfl, rfl, fun a _ => ?_⟩
        by_cases ha : a = sock
        · subst ha
          simp only [Function.update_self]
          exact ⟨rfl, rfl, rfl, .inr ⟨not_not.mp hbound, rfl⟩⟩
        · simp only [Function.update_of_ne ha]
          exact ⟨rfl, rfl, rfl, .inl rfl⟩
      exact ⟨h.kept hkept (.of_same h.sane (.setSock _ ⟨rfl, rfl, rfl⟩) (.refl h.sane.nodup)), hkept.portBinds⟩

theorem PortInv.packet (h : PortInv s qs) {frame : List UInt8} (ho : handlePacket s.host frame = .ok h') :
    (∃ qs', PortInv (s.withHost h') qs') ∧ (s.withHost h').portBinds = s.portBinds := by
  obtain ⟨qs', hset⟩ := handlePacket_settled h.sane ho
  have honly := handlePacket_only ho
  have hkept : PortsKept s h' := by
    refine ⟨honly.udp, honly.tcp, fun a ha => ?_⟩
    obtain ⟨x, hx⟩ := Option.ne_none_iff_exists'.mp ha
    obtain ⟨hd, tl, he⟩ := honly.socks a (h.kind a x hx).type_ne
    rw [he]
    exact ⟨rfl, rfl, rfl, .inl rfl⟩
  exact ⟨⟨qs', h.kept hkept hset⟩, hkept.portBinds⟩

/-- No socket in the table has a protocol number for its type, which is what `handle_tcp_packet` asks for. -/
theorem PortInv.handleTcpPacket (h : PortInv s qs) {tcpPkt : TcpFrame}
    (hport : tcpPkt.hdr.dstPort.toNat < MAX_PORT_BINDINGS) : (handleTcpPacket s.host tcpPkt).2 = s.host := by
  unfold Net.handleTcpPacket
  cases hb : s.host.tcpPortBinds tcpPkt.hdr.dstPort.toNat with
  | none => rfl
  | some b =>
      have htype := (h.fields (h.slots .tcp _ hport b hb).2.1).type_ne
      simp only [if_pos htype]
      split_ifs <;> rfl

/-! ## One step -/

/-- What a step does to the tables. -/
inductive PortChange (s t : State) (once : Prop) : Prop where
  | kept (same : t.portBinds = s.portBinds) (ho : once)
  | bound {sock port : Nat} {o : SockOps} {b : PortBinding} (hs : s.IsSock sock o) (hp : port < MAX_PORT_BINDINGS)
      (hfree : s.portBinds o port = none) (hb : b.sock = sock) (hnew : t.portBinds = s.enter o port b)
      (ho : once ↔ (s.host.socks sock).state = .closed)

theorem PortInv.step (h : PortInv s qs) {a : PortAct} (hs : portStep s a = some t) :
    (∃ qs', PortInv t qs') ∧ PortChange s t (BindsOnce s a) := by
  cases a with
  | socket p family type protocol =>
      simp only [portStep] at hs
      cases hr : sysSocket s p family type protocol with
      | error e => rw [hr] at hs; cases hs
      | ok x =>
          rw [hr] at hs
          cases hs
          obtain ⟨hi, htab⟩ := h.socket hr
          exact ⟨⟨qs, hi⟩, .kept htab trivial⟩
  | udpBind sock a l =>
      simp only [portStep] at hs
      split at hs
      · rename_i hsock
        cases hs
        rcases udpBind_cases s.host sock a l with ⟨hret, hr⟩ | ⟨addr, ip, rfl, hret, -, hport, hb⟩
        · obtain ⟨hi, htab⟩ := h.refused hr
          refine ⟨⟨qs, hi⟩, .kept htab (.inr fun addr ha => ?_)⟩
          rw [Option.mem_def.mp ha] at hret
          exact (udpBind_ret_iff ..).mp hret
        · obtain ⟨hi, htab⟩ := h.bound hsock hport hb
          refine ⟨⟨qs, hi⟩, .bound hsock hport hb.free rfl htab (or_iff_left fun hall => ?_)⟩
          have := (udpBind_ret_iff ..).mpr (hall addr rfl)
          rw [hret] at this
          exact absurd this (by decide)
      · cases hs
  | tcpBind sock a l =>
      simp only [portStep] at hs
      split at hs
      · rename_i hsock
        cases hr : tcpBind s.host sock a l with
        | error e => rw [hr] at hs; cases hs
        | ok x =>
            obtain ⟨r, h₁⟩ := x
            rw [hr] at hs
            cases hs
            rcases tcpBind_cases hr with ⟨rfl, href⟩ | ⟨addr, ip, rfl, rfl, -, hport, hb⟩
            · obtain ⟨hi, htab⟩ := h.refused href
              refine ⟨⟨qs, hi⟩, .kept htab (.inr fun addr ha => ?_)⟩
              rw [Option.mem_def.mp ha] at hr
              exact (tcpBind_ret_iff ..).mp (by rw [hr]; rfl)
            · obtain ⟨hi, htab⟩ := h.bound hsock (hport (h.fields hsock).1) hb
              refine ⟨⟨qs, hi⟩, .bound hsock (hport (h.fields hsock).1) hb.free rfl htab (or_iff_left fun hall => ?_)⟩
              have := (tcpBind_ret_iff s.host sock l addr).mpr (hall addr rfl)
              rw [hr] at this
              cases this
      · cases hs
  | tcpListen sock =>
      simp only [portStep] at hs
      split at hs
      · cases hs
        obtain ⟨hi, htab⟩ := h.listen sock
        exact ⟨⟨qs, hi⟩, .kept htab trivial⟩
      · cases hs
  | packet frame =>
      simp only [portStep] at hs
      cases hr : handlePacket s.host frame with
      | error e => rw [hr] at hs; cases hs
      | ok h₁ =>
          rw [hr] at hs
          cases hs
          obtain ⟨hi, htab⟩ := h.packet hr
          exact ⟨hi, .kept htab trivial⟩

/-! ## Whole runs -/

/-- No socket has two entries in one table. -/
def OneEntry (s : State) : Prop :=
  ∀ o, ∀ port < MAX_PORT_BINDINGS, ∀ port' < MAX_PORT_BINDINGS, ∀ b b', s.portBinds o port = some b →
    s.portBinds o port' = some b' → b'.sock = b.sock → port' = port

/-- What else is asked of the tables holds in every run. -/
theorem PortInv.agree_iff (h : PortInv s qs) : TablesAgree s ↔ OneEntry s := by
  constructor
  · intro ha o port hp port' hp' b b' hb hb' hs
    exact ((ha o port hp b hb).only o port' hp' b' hb' hs).2
  · intro hone o port hp b hb
    obtain ⟨hi, hs, hst⟩ := h.slots o port hp b hb
    obtain ⟨hp₀, b₀, hb₀, hs₀⟩ := h.path b.sock o hs hst
    refine ⟨hi, hs, hone o port hp _ hp₀ b b₀ hb hb₀ hs₀, fun o' port' hp' b' hb' he => ?_⟩
    have ho : o' = o := by
      have := (h.slots o' port' hp' b' hb').2.1
      rw [he] at this
      exact this.unique hs
    rw [ho] at hb'
    exact ⟨ho, hone o port hp port' hp' b b' hb hb' he⟩

section

variable {once : Prop}

/-- No entry is removed or replaced. -/
theorem PortChange.stays (hc : PortChange s t once)
    (hb : s.portBinds o port = some b) : t.portBinds o port = some b := by
  cases hc with
  | kept same _ => rw [same]; exact hb
  | bound _ _ hfree _ hnew _ => rw [hnew]; exact State.enter_of_some hfree hb

theorem PortChange.oneEntry (hc : PortChange s t once) (h : PortInv s qs) (ho : once) (hone : OneEntry s) :
    OneEntry t := by
  cases hc with
  | kept same _ => unfold OneEntry; rw [same]; exact hone
  | @bound sock port o b hs hp hfree hb hnew hiff =>
      -- a closed socket has no entry yet
      have hclosed := hiff.mp ho
      have hout : ∀ o', ∀ q < MAX_PORT_BINDINGS, ∀ c, s.portBinds o' q = some c → c.sock ≠ sock := by
        rintro o' q hq c hc rfl
        exact (h.slots o' q hq c hc).2.2 hclosed
      intro o' q hq q' hq' c c' hc hc' he
      rw [hnew] at hc hc'
      rcases State.enter_eq_some hc with ⟨-, hq, hc⟩ | hc
      · rcases State.enter_eq_some hc' with ⟨-, hq', -⟩ | hc'
        · exact hq'.trans hq.symm
        · rw [hc] at he
          exact absurd (he.trans hb) (hout o' q' hq' c' hc')
      · rcases State.enter_eq_some hc' with ⟨-, -, hc'⟩ | hc'
        · rw [hc'] at he
          exact absurd (he.symm.trans hb) (hout o' q hq c hc)
        · exact hone o' q hq q' hq' c c' hc hc' he

/-- The second bind of a socket leaves it with two entries. -/
theorem PortChange.twoEntries (hc : PortChange s t once) (h : PortInv s qs) (ho : ¬ once) : ¬ OneEntry t := by
  intro hone
  have hstays : ∀ o port b, s.portBinds o port = some b → t.portBinds o port = some b := fun _ _ _ => hc.stays
  cases hc with
  | kept _ hyes => exact ho hyes
  | @bound sock port o b hs hp hfree hb hnew hiff =>
      obtain ⟨hp', b', hb', hs'⟩ := h.path sock o hs (mt hiff.mpr ho)
      have hnew' : t.portBinds o port = some b := by rw [hnew]; exact State.enter_self ..
      have := hone o port hp _ hp' b b' hnew' (hstays o _ b' hb') (hs'.trans hb.symm)
      rw [this, hfree] at hb'
      cases hb'

theorem PortChange.not_oneEntry (hc : PortChange s t once) (hnot : ¬ OneEntry s) : ¬ OneEntry t := fun hone =>
  hnot fun o port hp port' hp' b b' hb hb' => hone o port hp port' hp' b b' (hc.stays hb) (hc.stays hb')

end

/-- A chain of `kalloc`s. -/
theorem kallocs_nodup : ∀ {l : List Nat} {k k' : Kmem}, (l.foldlM (fun k _ => match kalloc k with
      | (some _, k) => some k
      | (none, _) => none) k) = some k' → k.freelist.Nodup → k'.freelist.Nodup
  | [], _, _, h, hn => by cases h; exact hn
  | _ :: l, k, k', h, hn => by
      rw [List.foldlM_cons] at h
      rcases hk : kalloc k with ⟨p | p, k₁⟩
      · simp [hk] at h
      · simp only [hk, Option.bind_eq_bind, Option.bind_some] at h
        exact kallocs_nodup h (kalloc_held hn hk).2.1

theorem boot_portBinds {s₀ : State} (hu : Unbound h) (h₀ : socketInit (.start h) = some s₀) (o : SockOps)
    (hp : port < MAX_PORT_BINDINGS) : s₀.portBinds o port = none := by
  unfold socketInit at h₀
  split at h₀
  · cases h₀
  · cases h₀
    cases o with
    | udp => exact hu.boot.unbound port
    | tcp => exact hu.tcp port hp

theorem PortInv.boot {s₀ : State} (hu : Unbound h) (h₀ : socketInit (.start h) = some s₀) : PortInv s₀ fun _ => [] := by
  have hempty : ∀ o port, port < MAX_PORT_BINDINGS → s₀.portBinds o port = none := fun o _ => boot_portBinds hu h₀ o
  unfold socketInit at h₀
  split at h₀
  · cases h₀
  · rename_i k hk
    cases h₀
    have hrx : SameRx h { h with kmem := k } := .of_eq rfl rfl rfl
    refine ⟨⟨hrx.queues (.boot hu.boot), fun _ _ hp => (nomatch hp), kallocs_nodup hk hu.nodup⟩, fun _ _ => rfl,
      fun _ ha => absurd rfl ha, fun _ _ => rfl, fun _ _ hx => (nomatch hx), fun _ _ ha => (nomatch ha),
      fun o port hp b hb => ?_⟩
    rw [hempty o _ hp] at hb
    cases hb

theorem PortReaches.inv {as : List PortAct} (hu : Unbound h) (hr : PortReaches h as s) : ∃ qs, PortInv s qs := by
  obtain ⟨s₀, h₀, hrun⟩ := hr
  exact run_keeps' (I := fun s => ∃ qs, PortInv s qs) (fun s a t ⟨_, hi⟩ ht => (hi.step ht).1) ⟨_, .boot hu h₀⟩ hrun

/-! ## Answers -/

theorem PortInv.answers (h : PortInv s qs) (ha : s.IsSock a .udp) (hst : (s.host.socks a).state = .bound) :
    AnswersQueued s.host qs a := by
  rintro buf len d page ⟨sinPort, kbuf, dstIp, hport⟩ hd hpage
  obtain ⟨hlt, b, hb, hbs⟩ := h.path a .udp ha (by rw [hst]; exact nofun)
  -- the two byte orders cancel out
  have hdst : d.hdr.dstPort = .ofNat (s.host.socks a).srcPort := by
    have : d.hdr.dstPort = ntohs (load16 buf 2) := by
      unfold parseUdpPacket at hd
      split at hd
      · cases hd
      · dsimp only at hd
        split at hd
        · cases hd
        · cases hd; rfl
    rw [this, hport]
    exact ntohs_htons _
  have hnat : d.hdr.dstPort.toNat = (s.host.socks a).srcPort := by
    rw [hdst, UInt16.toNat_ofNat']
    exact Nat.mod_eq_of_lt (Nat.lt_trans hlt (by decide))
  have hudp : (s.host.socks a).proto = IPPROTO_UDP := (h.fields ha).1
  have hto : s.host.deliversTo d.hdr.dstPort = some a := by
    have hbound : s.host.boundTo d.hdr.dstPort = some a := by
      unfold Host.boundTo
      rw [hnat, if_pos hlt, show s.host.udpPortBinds _ = some b from hb, Option.map_some, hbs]
    rw [Host.deliversTo, hbound, Option.filter_some, if_pos (decide_eq_true hudp)]
  obtain ⟨hq, hsame⟩ := h.sane.queues.store hpage d
  obtain ⟨h', he, hq', hdata⟩ := handleUdpPacket_some hq hpage ((storeFrame_deliversTo ..).trans hto)
  refine ⟨h', he, page, hq', by rw [hdata.data, storeFrame_self], fun t q hq => ?_⟩
  rw [hdata.data, hsame t q hq]

end Xv6Net.Sys
