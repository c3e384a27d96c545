import Xv6Net.Net.Lemmas.Bind
import Xv6Net.Sys.Lemmas.Runs
import Xv6Net.Sys.Spec

/-!
# Which sockets a call looks at

`getsock` is followed through the list, entry by entry. With a size beyond the capacity it never gives up.
-/

namespace Xv6Net.Sys

open Kernel Net Procs Lib

variable {s t : State} {p : Slot} {r : Option Int} {call : Nat → Except Stop (Option Int × State)} {c : SockCall}

/-! ## `getsock` -/

/-- A list whose size is beyond the capacity has no end that `getsock` reaches. -/
theorem getsockFrom_ne_none : ∀ (left i : Nat), ((i + left : Nat) : Int) < s.sockList.size →
    (getsockFrom s fd i left).2 ≠ .ok none
  | 0, i, hsize => by
      have hi : (i : Int) < s.sockList.size := by omega
      simp [getsockFrom, hi]
  | left + 1, i, hsize => by
      have hi : (i : Int) < s.sockList.size := by omega
      simp only [getsockFrom, hi, if_true]
      split
      · exact nofun
      · split
        · exact nofun
        · split
          · exact nofun
          · exact getsockFrom_ne_none left (i + 1) (by omega)

section

variable {fd : Int} {i left a b : Nat} {x : SockRest} {P : Nat → Prop}

theorem getsockFrom_null (hi : (i : Int) < s.sockList.size) (hsock : s.sockList.socks i = none) :
    getsockFrom s fd i (left + 1) = ([], .error .fault) := by
  simp only [getsockFrom, hi, if_true, hsock]

theorem getsockFrom_hit (hi : (i : Int) < s.sockList.size) (hsock : s.sockList.socks i = some b)
    (hrest : s.rest b = some x) (hfd : x.fd = fd) : getsockFrom s fd i (left + 1) = ([b], .ok (some b)) := by
  simp only [getsockFrom, hi, if_true, hsock, hrest, hfd]

theorem getsockFrom_miss (hi : (i : Int) < s.sockList.size) (hsock : s.sockList.socks i = some b)
    (hrest : s.rest b = some x) (hfd : x.fd ≠ fd) :
    getsockFrom s fd i (left + 1) = (b :: (getsockFrom s fd (i + 1) left).1, (getsockFrom s fd (i + 1) left).2) := by
  simp only [getsockFrom, hi, if_true, hsock, hrest, hfd, if_false]

/-- Where a lookup goes on from entry `i`, the entry is a socket. -/
theorem getsockFrom_entry (h : (getsockFrom s fd i (left + 1)).2 = .ok (some a)) :
    (i : Int) < s.sockList.size ∧ ∃ b x, s.sockList.socks i = some b ∧ s.rest b = some x := by
  unfold getsockFrom at h
  split at h
  · rename_i hi
    refine ⟨hi, ?_⟩
    split at h
    · cases h
    · rename_i b hb
      split at h
      · cases h
      · rename_i x hx
        exact ⟨b, x, hb, hx⟩
  · cases h

/-- The entries from `i` on, up to the first one with the number `fd`, are sockets with `P`; that one is `a`, at
place `k`. -/
def FirstAt (s : State) (P : Nat → Prop) (fd : Int) (i k a : Nat) : Prop :=
  s.sockList.socks k = some a ∧ P a ∧ (∃ x, s.rest a = some x ∧ x.fd = fd) ∧
    ∀ j, i ≤ j → j < k → ∃ b x, s.sockList.socks j = some b ∧ P b ∧ s.rest b = some x ∧ x.fd ≠ fd

theorem getsockFrom_sound : ∀ {left i : Nat}, (getsockFrom s fd i left).2 = .ok (some a) →
    (∀ b ∈ (getsockFrom s fd i left).1, P b) → ∃ k < i + left, FirstAt s P fd i k a
  | 0, i, h, _ => by
      unfold getsockFrom at h
      dsimp only at h
      split at h <;> cases h
  | left + 1, i, h, hreads => by
      obtain ⟨hi, b, x, hsock, hrest⟩ := getsockFrom_entry h
      by_cases hfd : x.fd = fd
      · rw [getsockFrom_hit hi hsock hrest hfd] at h hreads
        cases h
        exact ⟨i, by omega, hsock, hreads _ List.mem_cons_self, ⟨x, hrest, hfd⟩, fun j h1 h2 => absurd h1 (by omega)⟩
      · rw [getsockFrom_miss hi hsock hrest hfd] at h hreads
        obtain ⟨k, hk, ha, hP, hx, hbefore⟩ := getsockFrom_sound h fun c hc => hreads c (List.mem_cons_of_mem b hc)
        refine ⟨k, by omega, ha, hP, hx, fun j hj hjk => ?_⟩
        rcases Nat.lt_or_eq_of_le hj with h | rfl
        · exact hbefore j h hjk
        · exact ⟨b, x, hsock, hreads b List.mem_cons_self, hrest, hfd⟩

theorem getsockFrom_complete {k : Nat} (hk : (k : Int) < s.sockList.size) : ∀ {left i : Nat}, i ≤ k → k < i + left →
    FirstAt s P fd i k a → (getsockFrom s fd i left).2 = .ok (some a) ∧ ∀ b ∈ (getsockFrom s fd i left).1, P b
  | 0, i, h1, h2, _ => absurd h1 (by omega)
  | left + 1, i, h1, h2, hf => by
      obtain ⟨ha, hP, ⟨x, hrest, hfd⟩, hbefore⟩ := hf
      rcases Nat.lt_or_eq_of_le h1 with hlt | rfl
      · obtain ⟨b, y, hsock, hPb, hy, hne⟩ := hbefore i (Nat.le_refl i) hlt
        obtain ⟨h, hreads⟩ := getsockFrom_complete hk hlt (show k < i + 1 + left by omega)
          ⟨ha, hP, ⟨x, hrest, hfd⟩, fun j hj => hbefore j (by omega)⟩
        rw [getsockFrom_miss (by omega) hsock hy hne]
        refine ⟨h, fun c hc => ?_⟩
        rcases List.mem_cons.mp hc with rfl | hc
        · exact hPb
        · exact hreads c hc
      · rw [getsockFrom_hit hk ha hrest hfd]
        exact ⟨rfl, fun c hc => by rw [List.mem_singleton.mp hc]; exact hP⟩

end

theorem getsock_finds (hsize : (MAX_SOCKET_CAPACITY : Int) < s.sockList.size) {a : Nat} :
    (getsock s fd).2 = .ok (some a) ∧ (∀ b ∈ (getsock s fd).1, s.Holds p b) ↔ s.Finds p fd a := by
  constructor
  · rintro ⟨h, hreads⟩
    obtain ⟨k, hk, ha, hP, hx, hbefore⟩ := getsockFrom_sound h hreads
    exact ⟨k, by omega, ha, hP, hx, fun i => hbefore i (Nat.zero_le i)⟩
  · rintro ⟨k, hk, ha, hP, hx, hbefore⟩
    exact getsockFrom_complete (by omega) (Nat.zero_le k) (by omega) ⟨ha, hP, hx, fun j _ => hbefore j⟩

/-! ## Calls through the list -/

theorem onListed_eq (fd : Int) (call : Nat → Except Stop (Option Int × State))
    (hsize : (MAX_SOCKET_CAPACITY : Int) < s.sockList.size) :
    (∃ e, (getsock s fd).2 = .error e ∧ onListed s fd call = ⟨true, (getsock s fd).1, none, .error e⟩) ∨
      ∃ a, (getsock s fd).2 = .ok (some a) ∧ onListed s fd call = ⟨true, (getsock s fd).1, some a, call a⟩ := by
  have hne : (getsock s fd).2 ≠ .ok none := getsockFrom_ne_none _ 0 (by rwa [Nat.zero_add])
  rcases hg : getsock s fd with ⟨reads, e | a⟩
  · exact .inl ⟨e, rfl, by simp only [onListed, hg]⟩
  · cases a with
    | none => rw [hg] at hne; exact absurd rfl hne
    | some a => exact .inr ⟨a, rfl, by simp only [onListed, hg]⟩

section

variable (hsize : (MAX_SOCKET_CAPACITY : Int) < s.sockList.size)
include hsize

/-- A call through the list is confined iff the socket it finds, and those before it, are held by the caller, and it
works on the caller's own or returns -1. -/
theorem onListed_confined {B : Nat → Prop}
    (hc : sockCall s p c = onListed s fd call) (hfd : c.fd = fd)
    (hB : ∀ a, B a ↔ ∃ t, call a = .ok (some (-1), t))
    (hchange : ∀ a r t, call a = .ok (r, t) → ∀ b, b ≠ a → t.host.socks b = s.host.socks b ∧ t.rest b = s.rest b) :
    Confined s p c ↔ ∃ a, s.Finds p fd a ∧ (s.own p fd = some a ∨ B a) := by
  constructor
  · intro h
    have hworks := h.works
    have hreads := h.reads
    rw [hc, hfd] at hworks
    rw [hc] at hreads
    rcases onListed_eq fd call hsize with ⟨e, -, he⟩ | ⟨a, ha, he⟩
    · rw [he] at hworks
      rcases hworks with ⟨t, ht⟩ | ⟨hne, -⟩
      · cases ht
      · exact absurd rfl hne
    · rw [he] at hworks hreads
      refine ⟨a, (getsock_finds hsize).mp ⟨ha, hreads⟩, ?_⟩
      rcases hworks with hm | ⟨-, hown⟩
      · exact .inr ((hB a).mpr hm)
      · exact .inl hown.symm
  · rintro ⟨a, hfinds, hor⟩
    obtain ⟨ha, hreads⟩ := (getsock_finds (p := p) hsize).mpr hfinds
    obtain ⟨-, -, -, hheld, -⟩ := hfinds
    rcases onListed_eq fd call hsize with ⟨e, he, -⟩ | ⟨b, hb, he⟩
    · rw [ha] at he; cases he
    · rw [ha] at hb; cases hb
      refine ⟨?_, ?_, ?_, ?_⟩
      · rw [hc, he]
      · rw [hc, he]; exact hreads
      · rw [hc, hfd, he]
        rcases hor with hown | hb
        · exact .inr ⟨nofun, hown.symm⟩
        · exact .inl ((hB a).mp hb)
      · rw [hc, he]
        exact fun r t ht b hnot => hchange a r t ht b fun hba => hnot (hba ▸ hheld)

theorem listen_confined (fd : Int) :
    Confined s p (.listen fd) ↔ OwnCall s p (.listen fd) := by
  rw [onListed_confined (B := fun _ => False) hsize rfl rfl]
  · simp only [OwnCall, SockCall.fd, or_false]
  · -- `listen` returns 0 or stops
    intro a
    refine ⟨False.elim, ?_⟩
    rintro ⟨t, ht⟩
    simp only [bind, Except.bind] at ht
    split at ht
    · cases ht
    · split at ht <;> cases ht
  · intro a r t ht b hb
    simp only [bind, Except.bind] at ht
    split at ht
    · cases ht
    · split at ht
      · cases ht
      · cases ht
        refine ⟨?_, rfl⟩
        simp only [State.withHost, tcpListen]
        split
        · rfl
        · split
          · rfl
          · exact Function.update_of_ne hb ..

theorem accept_confined (hq : Quiet s) (fd : Int) :
    Confined s p (.accept fd) ↔ OwnCall s p (.accept fd) := by
  rw [onListed_confined (B := fun a => acceptsOn (s.host.socks a) = false) hsize rfl rfl]
  · simp only [OwnCall, SockCall.fd]
  · intro a
    constructor
    · intro h
      exact ⟨s, by simp only [h, Bool.false_eq_true, if_false]⟩
    · rintro ⟨t, ht⟩
      -- a socket that waits for connections waits for ever
      by_contra hacc
      rw [Bool.not_eq_false] at hacc
      simp only [hacc, if_true] at ht
      split at ht
      · cases ht
      · rename_i x hx
        simp only [hq a x hx, Bool.false_eq_true, if_false] at ht
        cases ht
  · intro a r t ht b hb
    split at ht
    · split at ht
      · cases ht
      · cases ht; exact ⟨rfl, rfl⟩
    · cases ht; exact ⟨rfl, rfl⟩

end

/-! ## Calls through the table of the caller -/

theorem fdIndex_eq_some {i : Fin NOFILE} (h : fdIndex fd = some i) : fd = i.val := by
  unfold fdIndex at h
  split at h
  · rename_i hr
    cases h
    exact (Int.toNat_of_nonneg hr.1).symm
  · cases h

theorem fdIndex_isSome_iff : (∃ i, fdIndex fd = some i) ↔ 0 ≤ fd ∧ fd < NOFILE := by
  unfold fdIndex
  split
  · rename_i hr; exact ⟨fun _ => hr, fun _ => ⟨_, rfl⟩⟩
  · rename_i hr; exact ⟨fun ⟨_, h⟩ => (nomatch h), fun h => absurd h hr⟩

theorem own_of {i : Fin NOFILE} {f : Fin NFILE} (hi : fdIndex fd = some i) (hf : s.ofile p i = some f)
    (ht : (s.ftable f).type = .socket) : s.own p fd = some (s.ftable f).sock := by
  simp [State.own, argfd, hi, hf, ht]

/-- A call through the table of the caller is confined iff the descriptor is an index of the table. -/
theorem onDescriptor_confined (hc : sockCall s p c = onDescriptor s p fd call) (hfd : c.fd = fd)
    (hchange : ∀ a r t, call a = .ok (r, t) → ∀ b, b ≠ a → t.host.socks b = s.host.socks b ∧ t.rest b = s.rest b) :
    Confined s p c ↔ 0 ≤ fd ∧ fd < NOFILE := by
  rw [← fdIndex_isSome_iff]
  constructor
  · intro h
    have hin := h.inRange
    rw [hc] at hin
    unfold onDescriptor at hin
    split at hin
    · cases hin
    · rename_i i hi; exact ⟨i, hi⟩
  · rintro ⟨i, hi⟩
    -- an entry that is no socket is refused before anything is looked at
    have hrefused : onDescriptor s p fd call = ⟨true, [], none, .ok (some (-1), s)⟩ → Confined s p c := fun he => by
      rw [← hc] at he
      refine ⟨by rw [he], by rw [he]; exact fun a ha => (nomatch ha), .inl ⟨s, by rw [he]⟩, ?_⟩
      rw [he]
      intro r t ht a _
      cases ht; exact ⟨rfl, rfl⟩
    cases hf : s.ofile p i with
    | none => exact hrefused (by simp only [onDescriptor, hi, hf])
    | some f =>
        by_cases ht : (s.ftable f).type = .socket
        · have he : onDescriptor s p fd call =
              ⟨true, [(s.ftable f).sock], some (s.ftable f).sock, call (s.ftable f).sock⟩ := by
            simp only [onDescriptor, hi, hf, ht, ne_eq, not_true_eq_false, if_false]
          have hown := own_of hi hf ht
          have hheld : s.Holds p (s.ftable f).sock := ⟨i, fdIndex_eq_some hi ▸ hown⟩
          rw [← hc] at he
          refine ⟨by rw [he], ?_, .inr ⟨by rw [he]; exact nofun, by rw [he, hfd, hown]⟩, ?_⟩
          · rw [he]
            exact fun a ha => by rw [List.mem_singleton.mp ha]; exact hheld
          · rw [he]
            exact fun r t hr a hnot => hchange _ r t hr a fun hba => hnot (hba ▸ hheld)
        · exact hrefused (by simp only [onDescriptor, hi, hf, ne_eq, ht, not_false_eq_true, if_true])

/-- Each call through the table changes its own socket only. -/
theorem confined_of_descriptor
    (hc : sockCall s p c = onDescriptor s p fd call) (hfd : c.fd = fd) (hown : OwnCall s p c = (0 ≤ fd ∧ fd < NOFILE))
    (hhost : ∀ a r t, call a = .ok (r, t) → ∃ x, t = s.withHost x ∧ ∀ b, b ≠ a → x.socks b = s.host.socks b) :
    Confined s p c ↔ OwnCall s p c := by
  rw [onDescriptor_confined hc hfd, hown]
  intro a r t ht b hb
  obtain ⟨x, rfl, hx⟩ := hhost a r t ht
  exact ⟨hx b hb, rfl⟩

theorem confined_iff (hsize : (MAX_SOCKET_CAPACITY : Int) < s.sockList.size) (hq : Quiet s) (c : SockCall) :
    Confined s p c ↔ OwnCall s p c := by
  cases c with
  | listen fd => exact listen_confined hsize fd
  | accept fd => exact accept_confined hsize hq fd
  | bind fd uaddr addrlen =>
      have hc : sockCall s p (.bind fd uaddr addrlen) = sysBind s p fd uaddr addrlen := rfl
      unfold sysBind at hc
      refine confined_of_descriptor hc rfl rfl fun a r t ht => ?_
      split at ht
      · cases ht; exact ⟨s.host, rfl, fun _ _ => rfl⟩
      · split at ht
        · cases ht; exact ⟨s.host, rfl, fun _ _ => rfl⟩
        · simp only [bind, Except.bind] at ht
          split at ht
          · cases ht
          · split at ht
            · cases ht; exact ⟨_, rfl, fun b hb => udpBind_other _ hb _ _⟩
            · split at ht
              · cases ht
              · rename_i x hx
                cases ht; exact ⟨_, rfl, fun b hb => tcpBind_other hx hb⟩
  | sendto fd len addrlen kaddr copyin =>
      have hc : sockCall s p (.sendto fd len addrlen kaddr copyin) = sysSendto s p fd len addrlen kaddr copyin := rfl
      unfold sysSendto at hc
      refine confined_of_descriptor hc rfl rfl fun a r t ht => ?_
      simp only [bind, Except.bind] at ht
      split at ht
      · cases ht
      · split at ht
        · split at ht
          · cases ht
          · rename_i x hx
            cases ht; exact ⟨_, rfl, fun b _ => by rw [udpSendto_socks hx]⟩
        · cases ht
  | recvfrom fd len mapped =>
      have hc : sockCall s p (.recvfrom fd len mapped) = sysRecvfrom s p fd len mapped := rfl
      unfold sysRecvfrom at hc
      refine confined_of_descriptor hc rfl rfl fun a r t ht => ?_
      simp only [bind, Except.bind] at ht
      split at ht
      · cases ht
      · split at ht
        · split at ht
          · cases ht; exact ⟨s.host, rfl, fun _ _ => rfl⟩
          · rename_i x hx
            split at ht
            · cases ht
            · rename_i y hy
              cases ht; exact ⟨_, rfl, fun b hb => udpRecvfrom_other hx hb⟩
        · cases ht
  | send fd =>
      have hc : sockCall s p (.send fd) = sysSend s p fd := rfl
      unfold sysSend at hc
      refine confined_of_descriptor hc rfl rfl fun a r t ht => ?_
      cases ht; exact ⟨s.host, rfl, fun _ _ => rfl⟩
  | recv fd =>
      have hc : sockCall s p (.recv fd) = sysRecv s p fd := rfl
      unfold sysRecv at hc
      refine confined_of_descriptor hc rfl rfl fun a r t ht => ?_
      cases ht; exact ⟨s.host, rfl, fun _ _ => rfl⟩

end Xv6Net.Sys
