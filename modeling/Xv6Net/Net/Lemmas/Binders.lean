import Xv6Net.Net.Binders
import Xv6Net.Net.Lemmas.Settled

/-!
# Bindings and the calls that made them

A call past its insertion is one that returns 0. Every binding was made by such a call, and as long as insertions find
their port free there is one such call for each bound port.
-/

namespace Xv6Net.Net

open Kernel Lib

variable {s t : BindSys} {h : Host} {c : BindCall} {a : BindAct} {d : BindCall} {h' : Host} {i j : Nat}

/-- Without other calls in between, the steps are those of `udp_bind`. -/
theorem bindThrough_eq (h : Host) (sock : Nat) (addr : SockaddrIn) (addrlen : Nat) :
    bindThrough 4 h ⟨sock, addr, addrlen, .entered⟩ =
      ((udpBind h sock (some addr) addrlen).2, .returned (udpBind h sock (some addr) addrlen).1) := by
  by_cases hsock : sock = 0
  · simp only [bindThrough, bindAdvance, udpBind, if_pos hsock]
  by_cases hport : ntohs addr.sinPort = 0 ∨ MAX_PORT_BINDINGS ≤ (ntohs addr.sinPort).toNat
  · simp only [bindThrough, bindAdvance, udpBind, if_neg hsock, if_pos hport]
  by_cases hbound : (h.udpPortBinds (ntohs addr.sinPort).toNat).isSome
  · simp only [bindThrough, bindAdvance, udpBind, if_neg hsock, if_neg hport, if_pos hbound]
  by_cases hfamily : (h.socks sock).family ≠ AF_INET
  · simp only [bindThrough, bindAdvance, udpBind, if_neg hsock, if_neg hport, if_neg hbound, if_pos hfamily]
  by_cases hlen : addrlen ≠ SOCKADDR_IN_SIZE
  · simp only [bindThrough, bindAdvance, udpBind, if_neg hsock, if_neg hport, if_neg hbound, if_neg hfamily,
      if_pos hlen]
  · simp only [bindThrough, bindAdvance, udpBind, if_neg hsock, if_neg hport, if_neg hbound, if_neg hfamily,
      if_neg hlen]
    rcases kalloc h.kmem with ⟨p | p, k⟩
    · rfl
    · rfl

/-- The call has inserted its binding. -/
def BindCall.Done (c : BindCall) : Prop := c.pc = .inserted ∨ c.pc = .returned 0

/-- What a step of a call does to the port table, by the place it starts from. -/
inductive Advance (h : Host) (c : BindCall) : Host → BindPc → Prop
  | refused {h' : Host} {r : Int} (hpc : c.pc = .entered ∨ c.pc = .tested) (hr : r = -1)
      (hu : h'.udpPortBinds = h.udpPortBinds) (hs : h'.socks = h.socks) : Advance h c h' (.returned r)
  | tested (hpc : c.pc = .entered) (hsock : c.sock ≠ 0) : Advance h c h .tested
  | filled {h' : Host} {ip : UInt16} (hpc : c.pc = .tested) (hu : h'.udpPortBinds = h.udpPortBinds)
      (hs : ∀ a, (h'.socks a).proto = (h.socks a).proto ∧ (h'.socks a).type = (h.socks a).type) :
      Advance h c h' (.filled ⟨ip, ntohs c.addr.sinPort, c.sock⟩)
  | inserted {b : PortBinding} (hpc : c.pc = .filled b) : Advance h c (insertPortBinding h b) .inserted
  | finished {h' : Host} (hpc : c.pc = .inserted) (hu : h'.udpPortBinds = h.udpPortBinds)
      (hs : ∀ a, (h'.socks a).proto = (h.socks a).proto ∧ (h'.socks a).type = (h.socks a).type) :
      Advance h c h' (.returned 0)

/-- A store to one socket that leaves its protocol and its type alone. -/
theorem setSock_kind {sock : Nat} {x : Socket} (hp : x.proto = (h.socks sock).proto) (ht : x.type = (h.socks sock).type)
    (a : Nat) : (Function.update h.socks sock x a).proto = (h.socks a).proto ∧
      (Function.update h.socks sock x a).type = (h.socks a).type := by
  by_cases ha : a = sock
  · subst ha
    simp [hp, ht]
  · simp [ha]

theorem bindAdvance_cases {pc : BindPc} (ho : bindAdvance h c = some (h', pc)) : Advance h c h' pc := by
  unfold bindAdvance at ho
  dsimp only at ho
  split at ho
  · rename_i hpc
    split at ho
    · cases ho; exact .refused (.inl hpc) rfl rfl rfl
    · rename_i hsock
      split at ho
      · cases ho; exact .refused (.inl hpc) rfl rfl rfl
      · split at ho
        · cases ho; exact .refused (.inl hpc) rfl rfl rfl
        · cases ho; exact .tested hpc hsock
  · rename_i hpc
    split at ho
    · cases ho; exact .refused (.inr hpc) rfl rfl rfl
    · split at ho
      · cases ho; exact .refused (.inr hpc) rfl rfl rfl
      · split at ho
        · cases ho; exact .refused (.inr hpc) rfl rfl rfl
        · cases ho; exact .filled hpc rfl fun a => setSock_kind (by rfl) (by rfl) a
  · rename_i b hpc
    cases ho; exact .inserted hpc
  · rename_i hpc
    cases ho; exact .finished hpc rfl fun a => setSock_kind (by rfl) (by rfl) a
  · cases ho

/-- A call past its first step has a socket, and fills in its own port and socket. -/
structure BindCall.Placed (c : BindCall) : Prop where
  sock : c.pc ≠ .entered → (∀ r, c.pc ≠ .returned r) → c.sock ≠ 0
  filled : ∀ b, c.pc = .filled b → b.port.toNat = c.port ∧ b.sock = c.sock

/-- What holds in every run. In particular every binding comes from a call that has made its insertion. -/
structure BindInv (s : BindSys) : Prop where
  mayBind : ∀ i c, s.calls i = some c → s.host.MayBind c.sock
  placed : ∀ i c, s.calls i = some c → c.Placed
  source : ∀ port b, s.host.udpPortBinds port = some b → ∃ i c, s.calls i = some c ∧ c.Done ∧ c.port = port

/-- What holds as long as insertions find their port free. -/
structure BindOnce (s : BindSys) : Prop extends BindInv s where
  bound : ∀ i c, s.calls i = some c → c.Done → ∃ b, s.host.udpPortBinds c.port = some b ∧ b.sock = c.sock
  unique : ∀ i j c d, s.calls i = some c → s.calls j = some d → c.Done → d.Done → c.port = d.port → i = j

/-- Two calls have inserted a binding for one port. -/
def BoundTwice (s : BindSys) : Prop :=
  ∃ i j c d, i ≠ j ∧ s.calls i = some c ∧ s.calls j = some d ∧ c.Done ∧ d.Done ∧ c.port = d.port

/-! ## The steps -/

/-- A host with the same bindings and the same kinds of sockets. -/
structure SameBinds (h h' : Host) : Prop where
  udp : h'.udpPortBinds = h.udpPortBinds
  kind : ∀ a, h.MayBind a → h'.MayBind a

theorem SameBinds.of_kind (hu : h'.udpPortBinds = h.udpPortBinds)
    (hs : ∀ a, (h'.socks a).proto = (h.socks a).proto ∧ (h'.socks a).type = (h.socks a).type) : SameBinds h h' :=
  ⟨hu, fun a ha => by simpa only [Host.MayBind, (hs a).1, (hs a).2] using ha⟩

theorem handlePacket_sameBinds {frame : List UInt8} (ho : handlePacket h frame = .ok h') : SameBinds h h' := by
  have honly := handlePacket_only ho
  refine ⟨honly.udp, fun a ha => ?_⟩
  rcases ha with ha | ⟨hp, ht⟩
  · exact .inl ha
  · obtain ⟨_, _, he⟩ := honly.socks a (by rw [ht]; decide)
    exact .inr (by rw [he]; exact ⟨hp, ht⟩)

/-- The binding of a UDP socket goes to the UDP table. -/
theorem insertPortBinding_udp {b : PortBinding} (hb : (h.socks b.sock).proto = IPPROTO_UDP) :
    insertPortBinding h b = { h with udpPortBinds := Function.update h.udpPortBinds b.port.toNat (some b) } := by
  have hne : (h.socks b.sock).proto ≠ IPPROTO_TCP := by rw [hb]; decide
  simp only [insertPortBinding, if_neg hne, if_pos hb]

/-- What becomes of call `i`, seen from the bindings: it is new or moves on and the bindings stay, or it inserts. -/
inductive Becomes (s : BindSys) : BindAct → Nat → BindCall → Host → Prop
  | begins {a : BindAct} {i : Nat} {c' : BindCall} {h' : Host} (hi : s.calls i = none) (hnot : ¬ c'.Done)
      (hu : h'.udpPortBinds = s.host.udpPortBinds) : Becomes s a i c' h'
  | moves {a : BindAct} {i : Nat} {c c' : BindCall} {h' : Host} (hi : s.calls i = some c) (hsock : c'.sock = c.sock)
      (hport : c'.port = c.port) (hdone : c'.Done ↔ c.Done) (hu : h'.udpPortBinds = s.host.udpPortBinds) :
      Becomes s a i c' h'
  | inserts {i : Nat} {c c' : BindCall} {h' : Host} {b : PortBinding} (hi : s.calls i = some c)
      (hpc : c.pc = .filled b) (hport : c'.port = c.port) (hdone : c'.Done) (hsock : b.sock = c'.sock)
      (hu : h'.udpPortBinds = Function.update s.host.udpPortBinds c.port (some b)) : Becomes s (.advance i) i c' h'

inductive BindMove (s : BindSys) (a : BindAct) : BindSys → Prop
  | host {h' : Host} (hs : SameBinds s.host h') : BindMove s a { s with host := h' }
  | call {i : Nat} {c' : BindCall} {h' : Host} (hkind : ∀ x, s.host.MayBind x → h'.MayBind x)
      (hmay : s.host.MayBind c'.sock) (hplaced : c'.Placed) (hb : Becomes s a i c' h') :
      BindMove s a ({ s with host := h' }.setCall i c')

theorem BindInv.moves (hinv : BindInv s) (ht : bindStep s a = some t) : BindMove s a t := by
  cases a with
  | call i sock addr addrlen =>
      simp only [bindStep] at ht
      split at ht
      · rename_i hc
        cases ht
        exact .call (fun _ h => h) hc.2 ⟨fun h _ => absurd rfl h, nofun⟩ (.begins hc.1 (by simp [BindCall.Done]) rfl)
      · cases ht
  | packet frame =>
      simp only [bindStep] at ht
      cases hp : handlePacket s.host frame with
      | error e => rw [hp] at ht; cases ht
      | ok h' => rw [hp] at ht; cases ht; exact .host (handlePacket_sameBinds hp)
  | advance i =>
      simp only [bindStep, bind, Option.bind_eq_some_iff] at ht
      obtain ⟨c, hi, ⟨h', pc⟩, ho, ht⟩ := ht
      cases ht
      have hmay := hinv.mayBind i c hi
      have hplaced := hinv.placed i c hi
      -- a step other than the insertion leaves the bindings alone
      have hmoves : SameBinds s.host h' → ({ c with pc := pc }.Done ↔ c.Done) → { c with pc := pc }.Placed →
          BindMove s (.advance i) ({ s with host := h' }.setCall i { c with pc := pc }) :=
        fun hs hdone hp => .call hs.kind hmay hp (.moves hi rfl rfl hdone hs.udp)
      cases bindAdvance_cases ho with
      | refused hpc hr hu hs =>
          subst hr
          refine hmoves (.of_kind hu fun a => by rw [hs]; exact ⟨rfl, rfl⟩) ?_ ⟨fun _ h => absurd rfl (h _), nofun⟩
          rcases hpc with hpc | hpc <;> simp [BindCall.Done, hpc]
      | tested hpc hsock =>
          exact hmoves ⟨rfl, fun _ h => h⟩ (by simp [BindCall.Done, hpc]) ⟨fun _ _ => hsock, nofun⟩
      | filled hpc hu hs =>
          refine hmoves (.of_kind hu hs) (by simp [BindCall.Done, hpc]) ⟨fun _ _ => ?_, fun b hb => ?_⟩
          · exact hplaced.sock (by simp [hpc]) (by simp [hpc])
          · cases hb
            exact ⟨rfl, rfl⟩
      | @inserted b hpc =>
          obtain ⟨hport, hsock⟩ := hplaced.filled b hpc
          have hne : c.sock ≠ 0 := hplaced.sock (by simp [hpc]) (by simp [hpc])
          have hudp : (s.host.socks b.sock).proto = IPPROTO_UDP := by
            rw [hsock]
            exact (hmay.resolve_left hne).1
          rw [insertPortBinding_udp hudp, hport]
          exact .call (fun _ h => h) hmay ⟨fun _ _ => hne, nofun⟩ (.inserts hi hpc rfl (.inl rfl) hsock rfl)
      | finished hpc hu hs =>
          exact hmoves (.of_kind hu hs) (by simp [BindCall.Done, hpc]) ⟨fun _ h => absurd rfl (h _), nofun⟩

/-- A call of the state after a step is the one that moved, or was there before. -/
theorem calls_setCall {c : BindCall} (h : (s.setCall i c).calls j = some d) :
    j = i ∧ d = c ∨ j ≠ i ∧ s.calls j = some d := by
  by_cases hj : j = i
  · subst hj
    simp only [BindSys.setCall, Function.update_self, Option.some.injEq] at h
    exact .inl ⟨rfl, h.symm⟩
  · simp only [BindSys.setCall, Function.update_of_ne hj] at h
    exact .inr ⟨hj, h⟩

theorem setCall_calls_self (s : BindSys) (i : Nat) (c : BindCall) : (s.setCall i c).calls i = some c :=
  Function.update_self ..

theorem setCall_calls_of_ne (c : BindCall) (h : j ≠ i) (hj : s.calls j = some d) :
    (s.setCall i c).calls j = some d := by
  rw [← hj]
  exact Function.update_of_ne h ..

/-- A call past its insertion is still past it after the step. -/
theorem Becomes.done {c' : BindCall} (hb : Becomes s a i c' h') (hj : s.calls j = some d) (hd : d.Done) :
    ∃ d', (({ s with host := h' } : BindSys).setCall i c').calls j = some d' ∧ d'.Done ∧ d'.port = d.port := by
  by_cases hne : j = i
  · subst hne
    refine ⟨c', setCall_calls_self .., ?_⟩
    cases hb with
    | begins hi => rw [hi] at hj; cases hj
    | moves hi _ hport hdone =>
        obtain rfl := Option.some.inj (hi.symm.trans hj)
        exact ⟨hdone.mpr hd, hport⟩
    | inserts hi _ hport hdone =>
        obtain rfl := Option.some.inj (hi.symm.trans hj)
        exact ⟨hdone, hport⟩
  · exact ⟨d, setCall_calls_of_ne c' hne hj, hd, rfl⟩

theorem BindInv.move (hinv : BindInv s) (hm : BindMove s a t) : BindInv t := by
  cases hm with
  | host hs =>
      exact ⟨fun i c hi => hs.kind _ (hinv.mayBind i c hi), hinv.placed, fun port b hb =>
        hinv.source port b (by rw [← hs.udp]; exact hb)⟩
  | @call i c' h' hkind hmay hplaced hb =>
      constructor
      · intro j d hj
        rcases calls_setCall hj with ⟨-, rfl⟩ | ⟨-, hj⟩
        · exact hkind _ hmay
        · exact hkind _ (hinv.mayBind j d hj)
      · intro j d hj
        rcases calls_setCall hj with ⟨-, rfl⟩ | ⟨-, hj⟩
        · exact hplaced
        · exact hinv.placed j d hj
      · -- the maker of an old binding is still there, and the maker of a new one is the call that moved
        intro port b hport
        have hold : s.host.udpPortBinds port = some b →
            ∃ j d, (({ s with host := h' } : BindSys).setCall i c').calls j = some d ∧ d.Done ∧ d.port = port := by
          intro hold
          obtain ⟨j, d, hj, hd, rfl⟩ := hinv.source port b hold
          obtain ⟨d', hj', hd', hp⟩ := hb.done hj hd
          exact ⟨j, d', hj', hd', hp⟩
        cases hb with
        | begins hi hnot hu => exact hold (by rw [← hu]; exact hport)
        | moves hi hsock hp hdone hu => exact hold (by rw [← hu]; exact hport)
        | @inserts _ c _ _ b' hi hpc hp hdone hsock hu =>
            have hport : h'.udpPortBinds port = some b := hport
            by_cases hpe : port = c.port
            · exact ⟨i, c', setCall_calls_self .., hdone, hp.trans hpe.symm⟩
            · rw [hu, Function.update_of_ne hpe] at hport
              exact hold hport

theorem BindOnce.move (h : BindOnce s) (hm : BindMove s a t) (hfree : InsertsFree s a) : BindOnce t := by
  refine ⟨h.toBindInv.move hm, ?_, ?_⟩
  · cases hm with
    | host hs =>
        intro j d hj hd
        obtain ⟨b, hb, hs'⟩ := h.bound j d hj hd
        exact ⟨b, by rw [← hb]; exact congrFun hs.udp _, hs'⟩
    | @call i c' h' hkind hmay hplaced hb =>
        intro j d hj hd
        change ∃ b, h'.udpPortBinds d.port = some b ∧ b.sock = d.sock
        rcases calls_setCall hj with ⟨-, rfl⟩ | ⟨-, hj⟩
        · cases hb with
          | begins hi hnot => exact absurd hd hnot
          | moves hi hsock hp hdone hu => rw [hu, hp, hsock]; exact h.bound i _ hi (hdone.mp hd)
          | inserts hi hpc hp hdone hsock hu => rw [hu, hp, Function.update_self]; exact ⟨_, rfl, hsock⟩
        · obtain ⟨b, hb', hs'⟩ := h.bound j d hj hd
          refine ⟨b, ?_, hs'⟩
          cases hb with
          | begins hi hnot hu => rw [hu, hb']
          | moves hi hsock hp hdone hu => rw [hu, hb']
          | inserts hi hpc hp hdone hsock hu =>
              have hne : d.port ≠ _ := fun hpe => by
                rw [hpe, hfree _ hi _ hpc] at hb'
                cases hb'
              rw [hu, Function.update_of_ne hne, hb']
  · cases hm with
    | host hs => exact h.unique
    | @call i c' h' hkind hmay hplaced hb =>
        -- another call past its insertion cannot have the port of the one that moved
        have hother : c'.Done → ∀ k e, s.calls k = some e → e.Done → e.port = c'.port → k = i := by
          intro hd k e hk he hp'
          cases hb with
          | begins hi hnot => exact absurd hd hnot
          | moves hi hsock hp hdone hu => exact h.unique k i e _ hk hi he (hdone.mp hd) (hp'.trans hp)
          | inserts hi hpc hp hdone hsock hu =>
              obtain ⟨b, hb, -⟩ := h.bound k e hk he
              rw [hp', hp, hfree _ hi _ hpc] at hb
              cases hb
        intro j k d e hj hk hd he hp
        rcases calls_setCall hj with ⟨hji, hdc⟩ | ⟨-, hj'⟩ <;> rcases calls_setCall hk with ⟨hki, hec⟩ | ⟨-, hk'⟩
        · exact hji.trans hki.symm
        · subst hdc; exact hji.trans (hother hd k e hk' he hp.symm).symm
        · subst hec; exact (hother he j d hj' hd hp).trans hki.symm
        · exact h.unique j k d e hj' hk' hd he hp

/-- Two calls past their insertion stay so. -/
theorem BoundTwice.move (h : BoundTwice s) (hm : BindMove s a t) : BoundTwice t := by
  obtain ⟨i, j, c, d, hne, hi, hj, hc, hd, hp⟩ := h
  cases hm with
  | host hs => exact ⟨i, j, c, d, hne, hi, hj, hc, hd, hp⟩
  | call hkind hmay hplaced hb =>
      obtain ⟨c₁, hi₁, hc₁, hp₁⟩ := hb.done hi hc
      obtain ⟨d₁, hj₁, hd₁, hp₂⟩ := hb.done hj hd
      exact ⟨i, j, c₁, d₁, hne, hi₁, hj₁, hc₁, hd₁, by rw [hp₁, hp₂, hp]⟩

/-- An insertion that finds its port bound leaves two calls past their insertion. -/
theorem BindInv.boundTwice (h : BindInv s) (hnot : ¬ InsertsFree s a) (ht : bindStep s a = some t) : BoundTwice t := by
  cases a with
  | call => exact absurd trivial hnot
  | packet => exact absurd trivial hnot
  | advance i =>
      simp only [InsertsFree, not_forall] at hnot
      obtain ⟨c, hi, b, hpc, hbound⟩ := hnot
      have hi : s.calls i = some c := hi
      obtain ⟨b', hb'⟩ := Option.ne_none_iff_exists'.mp hbound
      obtain ⟨j, e, hj, he, hp⟩ := h.source c.port b' hb'
      have hne : j ≠ i := by
        rintro rfl
        obtain rfl : c = e := Option.some.inj (hi.symm.trans hj)
        rcases he with he | he <;> rw [hpc] at he <;> cases he
      simp only [bindStep, hi, bindAdvance, hpc, bind, Option.bind, Option.some.injEq] at ht
      subst ht
      exact ⟨j, i, e, _, hne, setCall_calls_of_ne _ hne hj, setCall_calls_self .., he, .inl rfl, hp⟩

theorem BindOnce.boot (hb : h.AtBoot) : BindOnce (.boot h) where
  mayBind _ _ hi := nomatch hi
  placed _ _ hi := nomatch hi
  source port b hp := by
    have hp : h.udpPortBinds port = some b := hp
    rw [hb.unbound port] at hp
    cases hp
  bound _ _ hi := nomatch hi
  unique _ _ _ _ hi := nomatch hi

theorem BindOnce.exclusive (h : BindOnce s) : s.Exclusive :=
  ⟨fun i j c d hi hj hc hd hp => h.unique i j c d hi hj (.inr hc) (.inr hd) hp, fun i c hi hc => h.bound i c hi (.inr hc)⟩

/-- When every call has returned, two calls past their insertion have both returned 0. -/
theorem BoundTwice.not_exclusive (h : BoundTwice s) (hq : s.Quiet) : ¬ s.Exclusive := by
  obtain ⟨i, j, c, d, hne, hi, hj, hc, hd, hp⟩ := h
  have hret : ∀ k e, s.calls k = some e → e.Done → e.pc = .returned 0 := by
    rintro k e hk (he | he)
    · obtain ⟨r, hr⟩ := hq k e hk
      rw [he] at hr
      cases hr
    · exact he
  exact fun hex => hne (hex.once i j c d hi hj (hret i c hi hc) (hret j d hj hd) hp)

end Xv6Net.Net
