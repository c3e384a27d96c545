import Xv6Net.Sys.Lemmas.Files
import Xv6Net.Sys.Spec

/-!
# What a call of `socket` leaves

A page, entries of two lists, an entry of the file table and a descriptor are taken one after another. What every call
keeps is read off one case lemma, and each way the call can end is computed once.
-/

namespace Xv6Net.Sys

open Kernel Net Procs Lib

variable {s t : State} {p : Slot} {sock : Nat} {k : Kmem} {r : Option Int} {l : SockList} {o : SockOps} {u : State}

/-! ## Insertion into a list -/

theorem SockList.firstNull_lt {i : Nat} (h : l.firstNull = some i) : i < MAX_SOCKET_CAPACITY := by
  unfold SockList.firstNull at h
  exact List.mem_range.mp (List.mem_of_find?_eq_some h)

theorem SockList.insert_of_none (h : l.firstNull = none) (sock : Nat) : l.insert sock = l := by
  simp only [SockList.insert, h]

theorem SockList.insert_of_some {i : Nat} (h : l.firstNull = some i) (sock : Nat) :
    l.insert sock = ⟨Function.update l.socks i (some sock), l.size + 1⟩ := by
  simp only [SockList.insert, h]

theorem SockList.insert_eq_self_iff : l.insert sock = l ↔ l.firstNull = none := by
  constructor
  · intro h
    cases hn : l.firstNull with
    | none => rfl
    | some i =>
        rw [insert_of_some hn] at h
        have hsize : l.size + 1 = l.size := congrArg SockList.size h
        omega
  · exact fun h => insert_of_none h sock

theorem SockList.has_insert_iff : (l.insert sock).Has sock ↔ l.Has sock ∨ l.firstNull ≠ none := by
  cases hn : l.firstNull with
  | none => rw [insert_of_none hn]; exact ⟨.inl, fun h => h.elim id fun h => absurd rfl h⟩
  | some i =>
      rw [insert_of_some hn]
      exact ⟨fun _ => .inr nofun, fun _ => ⟨i, firstNull_lt hn, Function.update_self ..⟩⟩

/-! ## After `initsocket` -/

/-- The lists after `initsocket`: those of an accepted socket take it, unless the size says that there is no room. -/
structure Enlisted (s t : State) (sock : Nat) (o : Option SockOps) : Prop where
  all : t.sockList = if o ≠ none ∧ s.sockList.size ≠ MAX_SOCKET_CAPACITY then s.sockList.insert sock else s.sockList
  each : ∀ o', t.listOf o' = if o = some o' ∧ s.sockList.size ≠ MAX_SOCKET_CAPACITY then (s.listOf o').insert sock
    else s.listOf o'

/-- The socket that `initsocket` leaves in a cleared page. -/
def newSocket (h : Host) : Option SockOps → Socket
  | none => zeroSocket
  | some o =>
      { zeroSocket with
        proto := o.proto, srcIp := h.netconf.ipAddr, type := o.type, family := AF_INET, state := .closed }

/-- What `sys_socket` does besides the files: the page has a new socket and then a field or two of it set, or is given
back, and the lists are as `initsocket` left them. -/
structure Socketed (s t : State) (sock : Nat) (k : Kmem) (o : Option SockOps) (r : Option SockRest) : Prop where
  used : t.used = s.used
  host : t.host = { s.host with kmem := k, socks := Function.update s.host.socks sock (newSocket s.host o) }
  rest : t.rest = Function.update s.rest sock r
  lists : Enlisted s t sock o

theorem Socketed.rest_self {o : Option SockOps} {r : Option SockRest} (h : Socketed s t sock k o r) :
    t.rest sock = r := by
  rw [h.rest, Function.update_self]

theorem sockListInsert_spec (s : State) (sock : Nat) :
    (sockListInsert s sock).2.toFiles = s.toFiles ∧ (sockListInsert s sock).2.used = s.used ∧
      (sockListInsert s sock).2.host = s.host ∧ (sockListInsert s sock).2.rest = s.rest := by
  unfold sockListInsert
  dsimp only
  split
  · exact ⟨rfl, rfl, rfl, rfl⟩
  · split
    · simp only [udpSocketListInsert, and_self]
    · split
      · simp only [tcpSocketListInsert, and_self]
      · simp only [and_self]

theorem sockListInsert_enlisted (htype : (s.host.socks sock).type = o.type) :
    Enlisted s (sockListInsert s sock).2 sock (some o) := by
  unfold sockListInsert
  by_cases hfull : s.sockList.size = MAX_SOCKET_CAPACITY
  · simp only [if_pos hfull]
    exact ⟨by simp [hfull], fun o' => by simp [hfull]⟩
  · simp only [if_neg hfull, htype]
    cases o with
    | udp =>
        have ht : SockOps.type .udp = SOCK_DGRAM := rfl
        simp only [ht, if_true, udpSocketListInsert]
        refine ⟨by simp [hfull], fun o' => ?_⟩
        cases o' <;> simp [State.listOf, hfull]
    | tcp =>
        have ht : SockOps.type .tcp = SOCK_STREAM := rfl
        have hne : SOCK_STREAM ≠ SOCK_DGRAM := by decide
        simp only [ht, if_neg hne, if_true, tcpSocketListInsert]
        refine ⟨by simp [hfull], fun o' => ?_⟩
        cases o' <;> simp [State.listOf, hfull]

/-- After `initsocket` the files are the same. -/
theorem initsocket_socketed (s : State) (sock : Nat) (k : Kmem) (family type protocol : Int) :
    let t := (initsocket ((s.setKmem k).setSock sock zeroSocket (some ⟨0, none, false⟩)) sock family type protocol).2
    t.toFiles = s.toFiles ∧ Socketed s t sock k (acceptedProtocol family type protocol)
      (some ⟨0, acceptedProtocol family type protocol, false⟩) := by
  unfold initsocket
  cases acceptedProtocol family type protocol with
  | none =>
      refine ⟨rfl, rfl, rfl, rfl, ?_, fun o' => ?_⟩
      · simp [State.setSock, State.setKmem]
      · cases o' <;> simp [State.listOf, State.setSock, State.setKmem]
  | some o =>
      dsimp only
      generalize hu : State.setSock _ sock _ _ = u
      obtain ⟨hf, hused, hh, hr⟩ := sockListInsert_spec u sock
      have htype : (u.host.socks sock).type = o.type := by rw [← hu]; simp [State.setSock]
      have hl := sockListInsert_enlisted htype
      refine ⟨hf.trans ?_, hused.trans ?_, hh.trans ?_, hr.trans ?_, ?_, fun o' => ?_⟩
      · rw [← hu]; rfl
      · rw [← hu]; rfl
      · rw [← hu]; simp [State.setSock, State.setKmem, newSocket, zeroSocket]
      · rw [← hu]; simp [State.setSock, State.setKmem]
      · rw [hl.all, ← hu]; rfl
      · rw [hl.each, ← hu]; cases o' <;> rfl

/-! ## What every call keeps -/

/-- The files after a call that got the page `sock`. -/
inductive SocketFiles (s : State) (p : Slot) (sock : Nat) : Files → Prop
  | same : SocketFiles s p sock s.toFiles
  | scrapped {f : Fin NFILE} (hf : s.firstFree = some f) :
      SocketFiles s p sock (s.toFiles.setFile f { s.ftable f with ref := 0, type := .none })
  | filled {f : Fin NFILE} {fd : Fin NOFILE} (hf : s.firstFree = some f) (hfd : s.firstFd p = some fd) :
      SocketFiles s p sock
        ((s.toFiles.setFile f { s.ftable f with ref := 1, type := .socket, sock := sock }).setFd p fd (some f))

/-- However a call ends that got a page: what became of the files, of the lists and of the socket. -/
structure SocketDone (s t : State) (p : Slot) (sock : Nat) (o : Option SockOps) : Prop where
  files : SocketFiles s p sock t.toFiles
  used : t.used = s.used
  lists : Enlisted s t sock o
  rest : ∃ x, t.rest = Function.update s.rest sock x ∧ ∀ y, x = some y → y.pending = false

theorem firstFree_congr (h : u.toFiles = s.toFiles) : u.firstFree = s.firstFree := by
  simp only [State.firstFree, congrArg Files.ftable h]

theorem firstFd_congr (h : u.ofile = s.ofile) : u.firstFd p = s.firstFd p := by
  simp only [State.firstFd, h]

theorem Enlisted.congr {o : Option SockOps} (h : Enlisted s u sock o)
    (he : t.sockList = u.sockList ∧ t.tcpSockList = u.tcpSockList ∧ t.udpSockList = u.udpSockList) :
    Enlisted s t sock o := by
  obtain ⟨h1, h2, h3⟩ := he
  refine ⟨h1.trans h.all, fun o' => ?_⟩
  rw [← h.each o']
  cases o'
  · exact h3
  · exact h2

theorem freeSocket_eq (h : freeSocket s sock = .ok (r, t)) :
    ∃ k, t = { s.setKmem k with rest := Function.update s.rest sock none } := by
  unfold freeSocket at h
  simp only [bind, Except.bind] at h
  split at h
  · cases h
  · cases h; exact ⟨_, rfl⟩

theorem sysSocket_cases {family type protocol : Int} (h : sysSocket s p family type protocol = .ok (r, t)) :
    (∃ k, t = s.setKmem k) ∨ s.host.kmem.freelist ≠ [] ∧
      ∃ sock, SocketDone s t p sock (acceptedProtocol family type protocol) := by
  unfold sysSocket at h
  split at h
  · cases h; exact .inl ⟨_, rfl⟩
  · rename_i sock k hk
    refine .inr ⟨by rw [(kalloc_eq_some hk).1]; exact List.cons_ne_nil _ _, sock, ?_⟩
    obtain ⟨hfiles, hi⟩ := initsocket_socketed s sock k family type protocol
    dsimp only at h
    generalize (initsocket _ sock family type protocol).2 = u at h hfiles hi
    -- where the call gives up, in a state with the sockets of `u`
    have hend : ∀ v, SocketFiles s p sock v.toFiles → Frame u v → freeSocket v sock = .ok (r, t) →
        SocketDone s t p sock (acceptedProtocol family type protocol) := by
      intro v hv hf ht
      obtain ⟨k', rfl⟩ := freeSocket_eq ht
      refine ⟨hv, hf.used.trans hi.used, hi.lists.congr hf.lists, none, ?_, nofun⟩
      simp only [hf.rest, hi.rest, Function.update_idem]
    split at h
    · exact hend u (hfiles ▸ .same) (.refl u) h
    · rename_i f s₂ ha
      have hfirst : s.firstFree = some f := by
        obtain ⟨g, hg, he⟩ := Option.map_eq_some_iff.mp ha
        cases he
        rw [← hg, firstFree_congr hfiles]
      obtain ⟨-, rfl⟩ := filealloc_eq_some ha
      split at h
      · simp only [bind, Except.bind] at h
        split at h
        · cases h
        · rename_i v hv
          obtain ⟨-, he, hf⟩ := fileclose_ok hv
          refine hend v ?_ ((Frame.setFile ..).trans hf) h
          rw [he, File.released_one (by simp [State.setFile])]
          simp only [State.setFile, Files.setFile_setFile, Files.setFile_self, hfiles]
          exact .scrapped hfirst
      · rename_i fd s₃ hd
        have hfd : s.firstFd p = some fd := by
          obtain ⟨i, hi, he⟩ := Option.map_eq_some_iff.mp hd
          cases he
          rw [← hi]
          exact (firstFd_congr (congrArg Files.ofile hfiles)).symm
        obtain ⟨-, rfl⟩ := fdalloc_eq_some hd
        cases h
        refine ⟨?_, hi.used, hi.lists.congr ⟨rfl, rfl, rfl⟩,
          some ⟨fd.val, acceptedProtocol family type protocol, false⟩, ?_, ?_⟩
        · simp only [State.setFile, State.setFd, Files.setFd_setFile, Files.setFile_setFile, Files.setFd_ftable,
            Files.setFile_self, hfiles]
          exact .filled hfirst hfd
        · simp [State.setFd, State.setFile, hi.rest]
        · rintro y ⟨⟩; rfl

/-- The entry that a socket gets keeps the flags it has. -/
theorem sysSocket_moves {G : FileType → Bool → Bool → Prop} {family type protocol : Int}
    (hg : s.host.kmem.freelist ≠ [] → s.firstFd p ≠ none → ∀ f, s.firstFree = some f →
      G .socket (s.ftable f).readable (s.ftable f).writable)
    (h : sysSocket s p family type protocol = .ok (r, t)) : Moves G p s.toFiles t.toFiles ∧ t.used = s.used := by
  rcases sysSocket_cases h with ⟨k, rfl⟩ | ⟨hpage, sock, hd⟩
  · exact ⟨.refl, rfl⟩
  · refine ⟨?_, hd.used⟩
    have hunused : ∀ {f}, s.firstFree = some f → (s.ftable f).ref = 0 := fun hf => by simpa using List.find?_some hf
    have hfiles := hd.files
    generalize t.toFiles = x at hfiles
    cases hfiles with
    | same => exact .refl
    | scrapped hf => exact .single (.scrap (hunused hf) rfl)
    | @filled f fd hf hfd =>
        have hnull : s.ofile p fd = none := by simpa using List.find?_some hfd
        exact .single (.install (hunused hf) hnull rfl (hg hpage (by rw [hfd]; exact nofun) _ hf))

/-! ## How the call ends -/

/-- A page that `kalloc` has just returned is given back. -/
theorem kfree_kalloc {k₀ : Kmem} (hk : kalloc k₀ = (some sock, k)) :
    ∃ k', kfree k sock = .ok k' ∧ k'.freelist = k₀.freelist := by
  obtain ⟨hf, hr, he⟩ := kalloc_eq_some hk
  have hmem : sock ∈ k₀.freelist := by rw [hf]; exact List.mem_cons_self
  obtain ⟨k', hfree, hlist, -⟩ := kfree_last (k := k) (p := sock) (by rw [he]; exact k₀.valid sock hmem)
    (by rw [hr, Function.update_self])
  exact ⟨k', hfree, by rw [hf]; exact hlist⟩

/-- Without an entry of the file table, or without a descriptor, the call returns -1: the page is free again, and the
lists are as `initsocket` left them. -/
theorem sysSocket_fails (family type protocol : Int) (hk : kalloc s.host.kmem = (some sock, k))
    (hnone : ∀ f, (s.ftable f).ref = 0 → (s.ftable f).type = .none)
    (hno : s.firstFree = none ∨ s.firstFd p = none) :
    ∃ t k', sysSocket s p family type protocol = .ok (some (-1), t) ∧ t.toFiles = s.toFiles ∧
      k'.freelist = s.host.kmem.freelist ∧ Socketed s t sock k' (acceptedProtocol family type protocol) none := by
  obtain ⟨hfiles, hi⟩ := initsocket_socketed s sock k family type protocol
  obtain ⟨k', hfree, hlist⟩ := kfree_kalloc hk
  simp only [sysSocket, hk]
  generalize (initsocket _ sock family type protocol).2 = u at hfiles hi
  -- both ends free the socket in a state that has all of `u` but the files
  have hend : ∀ v : Files, v = s.toFiles →
      ∃ t k', freeSocket { u with toFiles := v } sock = .ok (some (-1), t) ∧ t.toFiles = s.toFiles ∧
        k'.freelist = s.host.kmem.freelist ∧ Socketed s t sock k' (acceptedProtocol family type protocol) none := by
    rintro v rfl
    refine ⟨{ u with toFiles := s.toFiles, host := { u.host with kmem := k' }, rest := Function.update u.rest sock none },
      k', ?_, rfl, hlist, hi.used, ?_, ?_, hi.lists.congr ⟨rfl, rfl, rfl⟩⟩
    · simp only [freeSocket, hi.host, hfree, bind, Except.bind, State.setKmem]
    · simp only [hi.host]
    · simp only [hi.rest, Function.update_idem]
  have hfirst : u.firstFree = s.firstFree := firstFree_congr hfiles
  cases hff : s.firstFree with
  | none =>
      have ha : filealloc u = none := by simp only [filealloc, hfirst, hff, Option.map_none]
      simp only [ha]
      exact hend u.toFiles hfiles
  | some f =>
      have hfd : s.firstFd p = none := hno.resolve_left (by rw [hff]; exact Option.some_ne_none f)
      have ha : filealloc u = some (f, u.setFile f { u.ftable f with ref := 1 }) := by
        simp only [filealloc, hfirst, hff, Option.map_some]
      have hd : fdalloc (u.setFile f { u.ftable f with ref := 1 }) p f = none := by
        have hofile : u.ofile = s.ofile := congrArg Files.ofile hfiles
        have : (u.setFile f { u.ftable f with ref := 1 }).firstFd p = s.firstFd p := firstFd_congr hofile
        simp only [fdalloc, this, hfd, Option.map_none]
      have href : (s.ftable f).ref = 0 := by simpa using List.find?_some hff
      have hfile : u.ftable f = s.ftable f := congrFun (congrArg Files.ftable hfiles) f
      have hty : (u.ftable f).type = .none := by rw [hfile]; exact hnone f href
      have hclose := fileclose_unfilled (s := u.setFile f { u.ftable f with ref := 1 }) (f := f)
        (by simp [State.setFile]) (by simp [State.setFile, hty])
      simp only [ha, hd, hclose, bind, Except.bind]
      refine hend _ ?_
      -- the entry gets back what it had
      have hback : ({ s.ftable f with ref := 0 } : File) = s.ftable f := by rw [← href]
      simp only [State.setFile, Files.setFile_setFile, Files.setFile_self, hfiles]
      exact (congrArg (s.toFiles.setFile f) hback).trans (Files.setFile_eq_self ..)

/-- With an entry of the file table and a descriptor, the call returns that descriptor, whatever `initsocket` says. -/
theorem sysSocket_returns (family type protocol : Int) {f : Fin NFILE} {fd : Fin NOFILE}
    (hk : kalloc s.host.kmem = (some sock, k)) (hff : s.firstFree = some f) (hfd : s.firstFd p = some fd) :
    ∃ t, sysSocket s p family type protocol = .ok (some fd.val, t) ∧ t.own p fd.val = some sock ∧
      t.ftable = Function.update s.ftable f { s.ftable f with ref := 1, type := .socket, sock := sock } ∧
      Socketed s t sock k (acceptedProtocol family type protocol)
        (some ⟨fd.val, acceptedProtocol family type protocol, false⟩) := by
  obtain ⟨hfiles, hi⟩ := initsocket_socketed s sock k family type protocol
  simp only [sysSocket, hk]
  generalize (initsocket _ sock family type protocol).2 = u at hfiles hi
  have ha : filealloc u = some (f, u.setFile f { u.ftable f with ref := 1 }) := by
    simp only [filealloc, firstFree_congr hfiles, hff, Option.map_some]
  have hd : fdalloc (u.setFile f { u.ftable f with ref := 1 }) p f =
      some (fd, (u.setFile f { u.ftable f with ref := 1 }).setFd p fd (some f)) := by
    have hofile : u.ofile = s.ofile := congrArg Files.ofile hfiles
    have : (u.setFile f { u.ftable f with ref := 1 }).firstFd p = s.firstFd p := firstFd_congr hofile
    simp only [fdalloc, this, hfd, Option.map_some]
  simp only [ha, hd]
  refine ⟨_, rfl, ?_, ?_, hi.used, hi.host, ?_, hi.lists.congr ⟨rfl, rfl, rfl⟩⟩
  · have hidx : fdIndex (fd.val : Int) = some fd := by
      have : (0 : Int) ≤ fd.val ∧ (fd.val : Int) < NOFILE := ⟨by omega, by have := fd.isLt; omega⟩
      simp [fdIndex, this]
    simp [State.own, argfd, hidx, State.setFd, State.setFile, Files.setFd, Files.setFile]
  · simp [State.setFd, State.setFile, Files.setFd, Files.setFile, hfiles]
  · simp [State.setFd, State.setFile, hi.rest]

/-! ## All or nothing -/

section

variable {family type protocol : Int}

theorem Enlisted.of_rejected (h : Enlisted s t sock none) :
    t.sockList = s.sockList ∧ t.tcpSockList = s.tcpSockList ∧ t.udpSockList = s.udpSockList := by
  have hall := h.all
  have heach := h.each
  simp only [ne_eq, not_true_eq_false, false_and, if_false, reduceCtorEq] at hall heach
  exact ⟨hall, heach .tcp, heach .udp⟩

section

variable (h : Enlisted s t sock (some o))
include h

theorem Enlisted.of_full (hfull : s.sockList.size = MAX_SOCKET_CAPACITY) :
    t.sockList = s.sockList ∧ t.tcpSockList = s.tcpSockList ∧ t.udpSockList = s.udpSockList := by
  have hall := h.all
  have heach := h.each
  simp only [hfull, ne_eq, not_true_eq_false, and_false, if_false] at hall heach
  exact ⟨hall, heach .tcp, heach .udp⟩

/-- Below the capacity, both lists of the socket are asked to take it. -/
theorem Enlisted.of_room (hroom : s.sockList.size ≠ MAX_SOCKET_CAPACITY) :
    t.sockList = s.sockList.insert sock ∧ t.listOf o = (s.listOf o).insert sock ∧
      ∀ o', o' ≠ o → t.listOf o' = s.listOf o' := by
  have hall := h.all
  have heach := h.each
  simp only [hroom, ne_eq, reduceCtorEq, not_false_eq_true, and_self, if_true, and_true, Option.some.injEq]
    at hall heach
  exact ⟨hall, by rw [heach o, if_pos rfl], fun o' ho => by rw [heach o', if_neg (Ne.symm ho)]⟩

theorem Enlisted.same_iff :
    (t.sockList = s.sockList ∧ t.tcpSockList = s.tcpSockList ∧ t.udpSockList = s.udpSockList) ↔
      s.sockList.size = MAX_SOCKET_CAPACITY ∨ s.sockList.firstNull = none ∧ (s.listOf o).firstNull = none := by
  by_cases hfull : s.sockList.size = MAX_SOCKET_CAPACITY
  · exact ⟨fun _ => .inl hfull, fun _ => h.of_full hfull⟩
  · obtain ⟨hall, hlist, hother⟩ := h.of_room hfull
    constructor
    · rintro ⟨h1, h2, h3⟩
      have hsame : t.listOf o = s.listOf o := by cases o <;> assumption
      rw [h1] at hall
      rw [hsame] at hlist
      exact .inr ⟨SockList.insert_eq_self_iff.mp hall.symm, SockList.insert_eq_self_iff.mp hlist.symm⟩
    · intro hn
      obtain ⟨h1, h2⟩ := hn.resolve_left hfull
      rw [SockList.insert_of_none h1] at hall
      rw [SockList.insert_of_none h2] at hlist
      have hsame : ∀ o', t.listOf o' = s.listOf o' := fun o' => by
        by_cases ho : o' = o
        · rw [ho]; exact hlist
        · exact hother o' ho
      exact ⟨hall, hsame .tcp, hsame .udp⟩

/-- The socket is in both of its lists. -/
theorem Enlisted.has_iff :
    t.sockList.Has sock ∧ (t.listOf o).Has sock ↔
      s.sockList.Takes s.sockList sock ∧ (s.listOf o).Takes s.sockList sock := by
  unfold SockList.Takes
  by_cases hfull : s.sockList.size = MAX_SOCKET_CAPACITY
  · obtain ⟨h1, h2, h3⟩ := h.of_full hfull
    have hsame : t.listOf o = s.listOf o := by cases o <;> assumption
    rw [h1, hsame]
    simp only [hfull, ne_eq, not_true_eq_false, false_and, or_false]
  · obtain ⟨hall, hlist, -⟩ := h.of_room hfull
    rw [hall, hlist, SockList.has_insert_iff, SockList.has_insert_iff]
    simp only [hfull, ne_eq, not_false_eq_true, true_and]

end

/-- What is asked of a call that fails follows from the lists being the same. -/
theorem SameResources.dangling (h : SameResources s t) {a : Nat} (ha : t.Dangling a) : s.Dangling a := by
  obtain ⟨hfree, hhas⟩ := ha
  obtain ⟨h1, h2, h3⟩ := h.lists
  rw [h1, h2, h3] at hhas
  exact ⟨(h.pages a).mp hfree, hhas⟩

theorem allOrNothing_of_no_page (hfree : s.host.kmem.freelist = []) : AllOrNothing s p family type protocol := by
  have hk : ∃ k, kalloc s.host.kmem = (none, k) := ⟨_, Prod.ext (kalloc_nil hfree) rfl⟩
  obtain ⟨k, hk⟩ := hk
  have hsame : SameResources s (s.setKmem k) :=
    ⟨rfl, ⟨rfl, rfl, rfl⟩, fun a => by simp only [State.setKmem, (kalloc_eq_none hk).1]⟩
  exact ⟨-1, s.setKmem k, by simp only [sysSocket, hk], .inr ⟨rfl, hsame, fun a => hsame.dangling⟩⟩

/-- A call that has no entry or no descriptor to give is all or nothing iff it leaves the lists alone. -/
theorem allOrNothing_of_fails (hk : kalloc s.host.kmem = (some sock, k))
    (hnone : ∀ f, (s.ftable f).ref = 0 → (s.ftable f).type = .none)
    (hno : s.firstFree = none ∨ s.firstFd p = none) :
    AllOrNothing s p family type protocol ↔ ∀ o, acceptedProtocol family type protocol = some o →
      s.sockList.size = MAX_SOCKET_CAPACITY ∨ s.sockList.firstNull = none ∧ (s.listOf o).firstNull = none := by
  obtain ⟨t, k', ht, hfiles, hpages, hsock⟩ := sysSocket_fails family type protocol hk hnone hno
  have hlist := hsock.lists
  constructor
  · rintro ⟨r, t', ht', hor⟩ o ho
    rw [ht] at ht'
    cases ht'
    rcases hor with ⟨hr, -⟩ | ⟨-, hsame, -⟩
    · exact absurd hr (by decide)
    · rw [ho] at hlist
      exact hlist.same_iff.mp hsame.lists
  · intro hroom
    have hlists : t.sockList = s.sockList ∧ t.tcpSockList = s.tcpSockList ∧ t.udpSockList = s.udpSockList := by
      cases ha : acceptedProtocol family type protocol with
      | none => rw [ha] at hlist; exact hlist.of_rejected
      | some o => rw [ha] at hlist; exact hlist.same_iff.mpr (hroom o ha)
    have hsame : SameResources s t := ⟨hfiles, hlists, fun a => by rw [hsock.host]; simp only [hpages]⟩
    exact ⟨-1, t, ht, .inr ⟨rfl, hsame, fun a => hsame.dangling⟩⟩

/-- A call that gets everything is all or nothing iff the arguments were accepted and both lists have the socket. -/
theorem allOrNothing_of_returns {f : Fin NFILE} {fd : Fin NOFILE} (hk : kalloc s.host.kmem = (some sock, k))
    (hff : s.firstFree = some f) (hfd : s.firstFd p = some fd) :
    AllOrNothing s p family type protocol ↔ ∃ o, acceptedProtocol family type protocol = some o ∧
      s.sockList.Takes s.sockList sock ∧ (s.listOf o).Takes s.sockList sock := by
  obtain ⟨t, ht, hown, -, hsock⟩ := sysSocket_returns family type protocol hk hff hfd
  have hlist := hsock.lists
  have hrest := hsock.rest_self
  constructor
  · rintro ⟨r, t', ht', hor⟩
    rw [ht] at ht'
    cases ht'
    rcases hor with ⟨-, o, sock', ho, hown', -, hall, hhas⟩ | ⟨hr, -⟩
    · rw [hown] at hown'
      cases hown'
      rw [ho] at hlist
      exact ⟨o, ho, hlist.has_iff.mp ⟨hall, hhas⟩⟩
    · omega
  · rintro ⟨o, ho, htakes⟩
    rw [ho] at hlist hrest
    obtain ⟨hall, hhas⟩ := hlist.has_iff.mpr htakes
    exact ⟨fd.val, t, ht, .inl ⟨by omega, o, sock, ho, hown, ⟨_, hrest, rfl⟩, hall, hhas⟩⟩

end

end Xv6Net.Sys
