import Xv6Net.Sys.Lemmas.Socket

/-!
# Runs of system calls

What every event keeps: the counts of the file table, the descriptors of processes that do not exist, and the sizes of
the lists of sockets.
-/

namespace Xv6Net.Sys

open Kernel Net Procs Lib Relation

variable {s t : State} {p : Slot} {r : Option Int} {a : Act}

/-- A call on a socket changes what the network code has, and nothing else. -/
theorem sockCall_host {c : SockCall} (h : (sockCall s p c).result = .ok (r, t)) : ∃ x, t = s.withHost x := by
  cases c with
  | bind fd uaddr addrlen =>
      refine onDescriptor_result (fun sock r t ht => ?_) h
      dsimp only at ht
      split at ht
      · cases ht; exact ⟨s.host, rfl⟩
      · split at ht
        · cases ht; exact ⟨s.host, rfl⟩
        · simp only [bind, Except.bind] at ht
          split at ht
          · cases ht
          · split at ht
            · cases ht; exact ⟨_, rfl⟩
            · split at ht
              · cases ht
              · cases ht; exact ⟨_, rfl⟩
  | listen fd =>
      refine onListed_result (fun sock r t ht => ?_) h
      simp only [bind, Except.bind] at ht
      split at ht
      · cases ht
      · split at ht
        · cases ht
        · cases ht; exact ⟨_, rfl⟩
  | accept fd =>
      refine onListed_result (fun sock r t ht => ?_) h
      split at ht
      · split at ht
        · cases ht
        · cases ht; exact ⟨s.host, rfl⟩
      · cases ht; exact ⟨s.host, rfl⟩
  | sendto fd len addrlen kaddr copyin =>
      refine onDescriptor_result (fun sock r t ht => ?_) h
      simp only [bind, Except.bind] at ht
      split at ht
      · cases ht
      · split at ht
        · split at ht
          · cases ht
          · cases ht; exact ⟨_, rfl⟩
        · cases ht
  | recvfrom fd len mapped =>
      refine onDescriptor_result (fun sock r t ht => ?_) h
      simp only [bind, Except.bind] at ht
      split at ht
      · cases ht
      · split at ht
        · split at ht
          · cases ht; exact ⟨s.host, rfl⟩
          · split at ht
            · cases ht
            · cases ht; exact ⟨_, rfl⟩
        · cases ht
  | send fd => exact onDescriptor_result (fun _ _ _ ht => by cases ht; exact ⟨s.host, rfl⟩) h
  | recv fd => exact onDescriptor_result (fun _ _ _ ht => by cases ht; exact ⟨s.host, rfl⟩) h

theorem sysStep_call {c : Call} (h : sysStep s (.call p c) = some t) :
    s.used p = true ∧ ∃ r, syscall s p c = .ok (r, t) := by
  simp only [sysStep] at h
  split at h
  · rename_i hp
    refine ⟨hp, ?_⟩
    cases hc : syscall s p c with
    | error e => rw [hc] at h; cases h
    | ok x => rw [hc] at h; cases h; exact ⟨x.1, rfl⟩
  · cases h

theorem sysStep_packet {frame : List UInt8} (h : sysStep s (.packet frame) = some t) :
    ∃ x, handlePacket s.host frame = .ok x ∧ t = s.withHost x := by
  simp only [sysStep] at h
  cases hx : handlePacket s.host frame with
  | error e => rw [hx] at h; cases h
  | ok x => rw [hx] at h; cases h; exact ⟨x, rfl, rfl⟩

/-! ## The file table -/

/-- The counts of the file table are right, and only processes that exist have descriptors. -/
structure Live (G : FileType → Bool → Bool → Prop) (s : State) : Prop where
  files : FilesInv G s.toFiles
  idle : ∀ p, s.used p = false → ∀ i, s.ofile p i = none

section

variable {G : FileType → Bool → Bool → Prop}

theorem Live.start {h : Host} {s₀ : State} (h₀ : socketInit (.start h) = some s₀) : Live G s₀ := by
  unfold socketInit at h₀
  split at h₀
  · cases h₀
  · cases h₀
    refine ⟨⟨fun f => ?_, fun f hf => absurd hf (Nat.lt_irrefl 0)⟩, fun _ _ _ => rfl⟩
    exact (pointers_eq_zero fun _ => rfl).symm

/-- Moves of a process that exists. -/
theorem Live.moves (h : Live G s) (hp : s.used p = true) (hm : Moves G p s.toFiles t.toFiles)
    (hused : t.used = s.used) : Live G t := by
  refine ⟨hm.inv h.files, fun q hq i => ?_⟩
  rw [hused] at hq
  have hne : q ≠ p := by rintro rfl; rw [hp] at hq; cases hq
  rw [hm.other hne]
  exact h.idle q hq i

theorem Live.fork (h : Live G s) {np : Slot} (hnp : s.used np = false)
    (hs : syscall s p (.fork np) = .ok (r, t)) : Live G t := by
  simp only [syscall, hnp, Bool.false_eq_true, if_false, bind, Except.bind] at hs
  split at hs
  · cases hs
  · rename_i u hu
    cases hs
    obtain ⟨hm, hf⟩ := dupFiles_moves (G := G) (h.idle np hnp) u hu
    refine ⟨hm.inv h.files, fun q hq i => ?_⟩
    by_cases hne : q = np
    · subst hne; simp at hq
    · simp only [Function.update_of_ne hne, hf.used] at hq
      rw [hm.other hne]
      exact h.idle q hq i

theorem Live.exit (h : Live G s) (hs : syscall s p .exit = .ok (r, t)) : Live G t := by
  simp only [syscall, bind, Except.bind] at hs
  split at hs
  · cases hs
  · rename_i u hu
    cases hs
    obtain ⟨hnull, hm, hf⟩ := closeFiles_moves (G := G) u hu
    refine ⟨hm.inv h.files, fun q hq i => ?_⟩
    by_cases hne : q = p
    · rw [hne]; exact hnull i
    · simp only [Function.update_of_ne hne, hf.used] at hq
      rw [hm.other hne]
      exact h.idle q hq i

/-- Every event keeps the file table right. Files and pipes meet `G`, and a socket is asked for where the entry it
gets meets it. -/
theorem Live.step (h : Live G s) (hfile : ∀ ty r w, ty = .inode ∨ ty = .device → G ty r w) (hpipe : ∀ r w, G .pipe r w)
    (hsock : ∀ p family type protocol, a = .call p (.socket family type protocol) →
      s.host.kmem.freelist ≠ [] → s.firstFd p ≠ none → ∀ f, s.firstFree = some f →
        G .socket (s.ftable f).readable (s.ftable f).writable)
    (hs : sysStep s a = some t) : Live G t := by
  cases a with
  | packet frame =>
      obtain ⟨x, -, rfl⟩ := sysStep_packet hs
      exact ⟨h.files, h.idle⟩
  | call p c =>
      obtain ⟨hp, r, hc⟩ := sysStep_call hs
      have hmoves : Moves G p s.toFiles t.toFiles ∧ Frame s t → Live G t := fun hm => h.moves hp hm.1 hm.2.used
      cases c with
      | openFile lookup omode => exact hmoves (sysOpen_moves hfile hc)
      | close fd => exact hmoves (sysClose_moves hc)
      | dup fd => exact hmoves (sysDup_moves hc)
      | pipe mapped => exact hmoves (sysPipe_moves hpipe hc)
      | socket family type protocol =>
          obtain ⟨hm, hu⟩ := sysSocket_moves (hsock p family type protocol rfl) hc
          exact h.moves hp hm hu
      | fork np =>
          by_cases hnp : s.used np = true
          · simp only [syscall, hnp, if_true] at hc
            cases hc; exact h
          · exact h.fork (Bool.eq_false_of_not_eq_true hnp) hc
      | exit => exact h.exit hc
      | read fd n env => exact hmoves (sysRead_moves hc)
      | write fd n env => exact hmoves (sysWrite_moves hc)
      | sock c =>
          obtain ⟨x, rfl⟩ := sockCall_host hc
          exact ⟨h.files, h.idle⟩

end

/-! ## The lists of sockets -/

/-- No list becomes smaller. -/
structure Grown (s t : State) : Prop where
  all : s.sockList.size ≤ t.sockList.size
  tcp : s.tcpSockList.size ≤ t.tcpSockList.size
  udp : s.udpSockList.size ≤ t.udpSockList.size

theorem SockList.size_le_insert (l : SockList) (sock : Nat) : l.size ≤ (l.insert sock).size := by
  unfold SockList.insert; split
  · exact Int.le_refl _
  · exact Int.le_add_of_nonneg_right (by decide)

theorem Grown.of_eq (h : t.sockList = s.sockList ∧ t.tcpSockList = s.tcpSockList ∧ t.udpSockList = s.udpSockList) :
    Grown s t := by
  obtain ⟨h1, h2, h3⟩ := h
  exact ⟨by rw [h1], by rw [h2], by rw [h3]⟩

theorem Enlisted.grown {sock : Nat} {o : Option SockOps} (h : Enlisted s t sock o) : Grown s t := by
  have hall := h.all
  have htcp : t.tcpSockList = _ := h.each .tcp
  have hudp : t.udpSockList = _ := h.each .udp
  refine ⟨?_, ?_, ?_⟩
  · rw [hall]; split
    · exact s.sockList.size_le_insert sock
    · exact Int.le_refl _
  · rw [htcp]; split
    · exact s.tcpSockList.size_le_insert sock
    · exact Int.le_refl _
  · rw [hudp]; split
    · exact s.udpSockList.size_le_insert sock
    · exact Int.le_refl _

theorem sysSocket_grown {family type protocol : Int} (h : sysSocket s p family type protocol = .ok (r, t)) :
    Grown s t := by
  rcases sysSocket_cases h with ⟨k, rfl⟩ | ⟨-, sock, hd⟩
  · exact .of_eq ⟨rfl, rfl, rfl⟩
  · exact hd.lists.grown

/-- No condition on the entries in use. -/
def Any : FileType → Bool → Bool → Prop := fun _ _ _ => True

/-- The same sockets are there, in the same lists. -/
structure SameSockets (s t : State) : Prop where
  rest : t.rest = s.rest
  lists : t.sockList = s.sockList ∧ t.tcpSockList = s.tcpSockList ∧ t.udpSockList = s.udpSockList

/-- Only `socket` changes which sockets there are. -/
theorem sysStep_sockets (hs : sysStep s a = some t) :
    SameSockets s t ∨ ∃ p family type protocol r, sysSocket s p family type protocol = .ok (r, t) := by
  have hframe : Frame s t → SameSockets s t ∨ ∃ p family type protocol r,
      sysSocket s p family type protocol = .ok (r, t) := fun hf => .inl ⟨hf.rest, hf.lists⟩
  cases a with
  | packet frame =>
      obtain ⟨x, -, rfl⟩ := sysStep_packet hs
      exact .inl ⟨rfl, rfl, rfl, rfl⟩
  | call p c =>
      obtain ⟨-, r, hc⟩ := sysStep_call hs
      cases c with
      | openFile lookup omode => exact hframe (sysOpen_moves (G := Any) (fun _ _ _ _ => trivial) hc).2
      | close fd => exact hframe (sysClose_moves (G := Any) hc).2
      | dup fd => exact hframe (sysDup_moves (G := Any) hc).2
      | pipe mapped => exact hframe (sysPipe_moves (G := Any) (fun _ _ => trivial) hc).2
      | socket family type protocol => exact .inr ⟨p, family, type, protocol, r, hc⟩
      | fork np =>
          simp only [syscall, bind, Except.bind] at hc
          split at hc
          · cases hc; exact hframe (.refl s)
          · split at hc
            · cases hc
            · rename_i u hu
              have hf := dupFiles_frame u hu
              cases hc; exact .inl ⟨hf.rest, hf.lists⟩
      | exit =>
          simp only [syscall, bind, Except.bind] at hc
          split at hc
          · cases hc
          · rename_i u hu
            obtain ⟨-, -, hf⟩ := closeFiles_moves (G := Any) u hu
            cases hc; exact .inl ⟨hf.rest, hf.lists⟩
      | read fd n env => exact hframe (sysRead_moves (G := Any) hc).2
      | write fd n env => exact hframe (sysWrite_moves (G := Any) hc).2
      | sock c =>
          obtain ⟨x, rfl⟩ := sockCall_host hc
          exact .inl ⟨rfl, rfl, rfl, rfl⟩

theorem Grown.step (hs : sysStep s a = some t) : Grown s t := by
  rcases sysStep_sockets hs with hsame | ⟨p, family, type, protocol, r, hc⟩
  · exact .of_eq hsame.lists
  · exact sysSocket_grown hc

/-! ## `pending` -/

/-- Nothing ever sets `pending`. -/
def Quiet (s : State) : Prop := ∀ a x, s.rest a = some x → x.pending = false

theorem Quiet.of_eq (h : Quiet s) (he : t.rest = s.rest) : Quiet t := fun a x hx => h a x (he ▸ hx)

theorem sysSocket_quiet (h : Quiet s) {family type protocol : Int}
    (hs : sysSocket s p family type protocol = .ok (r, t)) : Quiet t := by
  rcases sysSocket_cases hs with ⟨k, rfl⟩ | ⟨-, sock, hd⟩
  · exact h
  · obtain ⟨x, hx, hquiet⟩ := hd.rest
    intro a y hy
    rw [hx, Function.update_apply] at hy
    split at hy
    · exact hquiet y hy
    · exact h a y hy

theorem Quiet.step (h : Quiet s) (hs : sysStep s a = some t) : Quiet t := by
  rcases sysStep_sockets hs with hsame | ⟨p, family, type, protocol, r, hc⟩
  · exact h.of_eq hsame.rest
  · exact sysSocket_quiet h hc

/-! ## From `socket_init` on -/

/-- The value that the bytes of a fresh page give `size`. -/
def freshSize : Int := 0x05050505

/-- In every state that is reached, the sizes are those of fresh pages or larger, and no connection is pending. -/
structure Listed (s : State) : Prop where
  all : freshSize ≤ s.sockList.size
  tcp : freshSize ≤ s.tcpSockList.size
  udp : freshSize ≤ s.udpSockList.size
  quiet : Quiet s

theorem Reaches.listed {h : Host} {as : List Act} (hr : Reaches h as s) : Listed s := by
  obtain ⟨s₀, h₀, hrun⟩ := hr
  have hinit : Listed s₀ := by
    unfold socketInit at h₀
    split at h₀
    · cases h₀
    · cases h₀
      exact ⟨Int.le_refl _, Int.le_refl _, Int.le_refl _, fun _ _ hx => nomatch hx⟩
  refine run_keeps' (fun s a t h ht => ?_) hinit hrun
  have hg := Grown.step ht
  exact ⟨h.all.trans hg.all, h.tcp.trans hg.tcp, h.udp.trans hg.udp, h.quiet.step ht⟩

end Xv6Net.Sys
