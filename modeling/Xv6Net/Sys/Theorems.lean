import Xv6Net.Net.Theorems
import Xv6Net.Proc.Theorems
import Xv6Net.Sys.Lemmas.Confined
import Xv6Net.Sys.Lemmas.Exit
import Xv6Net.Sys.Lemmas.Pipe
import Xv6Net.Sys.Lemmas.Ports
import Xv6Net.Sys.Lemmas.World

/-!
# Properties of the system calls on files and sockets
-/

namespace Xv6Net.Sys

open Kernel Net Procs Lib

/-- The sample host without a socket. -/
def bareHost : Host := { Host.sample with socks := fun _ => zeroSocket }

/-- The sample host after `socket_init`. -/
def booted : State := (socketInit (.start bareHost)).get (by decide +kernel)

theorem booted_eq : socketInit (.start bareHost) = some booted := (Option.some_get _).symm

/-! ## Reading and writing -/

/-- A socket with its flags clear is neither read nor written. -/
def Usable : FileType → Bool → Bool → Prop
  | .none, _, _ => False
  | .socket, r, w => r = false ∧ w = false
  | .pipe, _, _ | .inode, _, _ | .device, _, _ => True

theorem fileread_returns {s : State} {f : Fin NFILE}
    (hu : Usable (s.ftable f).type (s.ftable f).readable (s.ftable f).writable) (n : Int) (env : ReadEnv) :
    ∃ r t, fileread s f n env = .ok (r, t) := by
  unfold fileread
  dsimp only
  split
  · exact ⟨_, _, rfl⟩
  · rename_i hr
    cases ht : (s.ftable f).type with
    | none => rw [ht] at hu; exact hu.elim
    | socket => rw [ht] at hu; exact absurd hu.1 hr
    | pipe => dsimp only; split <;> exact ⟨_, _, rfl⟩
    | device => dsimp only; split <;> exact ⟨_, _, rfl⟩
    | inode => exact ⟨_, _, rfl⟩

theorem filewrite_returns {s : State} {f : Fin NFILE}
    (hu : Usable (s.ftable f).type (s.ftable f).readable (s.ftable f).writable) (n : Int) (env : WriteEnv) :
    ∃ r t, filewrite s f n env = .ok (r, t) := by
  unfold filewrite
  dsimp only
  split
  · exact ⟨_, _, rfl⟩
  · rename_i hw
    cases ht : (s.ftable f).type with
    | none => rw [ht] at hu; exact hu.elim
    | socket => rw [ht] at hu; exact absurd hu.2 hw
    | pipe => dsimp only; split <;> exact ⟨_, _, rfl⟩
    | device => dsimp only; split <;> exact ⟨_, _, rfl⟩
    | inode => exact ⟨_, _, rfl⟩

/-- Where every socket gets an entry of the file table with both flags clear, no read or write panics. -/
theorem read_write_return {h : Host} {s₀ s : State} {as : List Act} (h₀ : socketInit (.start h) = some s₀)
    (hm : RunMeets sysStep CleanEntry s₀ as) (hr : run sysStep s₀ as = some s) (p : Slot) (fd n : Int)
    (renv : ReadEnv) (wenv : WriteEnv) :
    (∃ r t, sysRead s p fd n renv = .ok (r, t)) ∧ ∃ r t, sysWrite s p fd n wenv = .ok (r, t) := by
  have hlive : Live Usable s := by
    refine run_keeps (fun s a t hs hc ht => ?_) (Live.start h₀) hm hr
    refine hs.step (fun ty r w hty => ?_) (fun _ _ => trivial) (fun p family type protocol ha => ?_) ht
    · rcases hty with rfl | rfl <;> trivial
    · subst ha
      intro hpage hfd f hf
      exact hc hpage hfd f hf
  unfold sysRead sysWrite
  cases ha : argfd s p fd with
  | none => exact ⟨⟨_, _, rfl⟩, _, _, rfl⟩
  | some x =>
      obtain ⟨i, f⟩ := x
      have hu := hlive.files.good f (hlive.files.opened (argfd_eq_some ha))
      exact ⟨fileread_returns hu n renv, filewrite_returns hu n wenv⟩

def socketAndPipe : Sample sysStep booted [.call 0 (.socket 2 2 0), .call 0 (.pipe true)] CleanEntry
    (fun s => (argfd s 0 2).isSome = true) := .eval (by decide +kernel)

/-- A socket and a pipe; both ends of the pipe and the socket can be read and written. -/
theorem read_write_return_three :
    ∃ s₀ s, socketInit (.start bareHost) = some s₀ ∧
      RunMeets sysStep CleanEntry s₀ [.call 0 (.socket 2 2 0), .call 0 (.pipe true)] ∧
      run sysStep s₀ [.call 0 (.socket 2 2 0), .call 0 (.pipe true)] = some s ∧
      (argfd s 0 2).isSome ∧ ∀ fd n renv wenv,
        (∃ r t, sysRead s 0 fd n renv = .ok (r, t)) ∧ ∃ r t, sysWrite s 0 fd n wenv = .ok (r, t) := by
  obtain ⟨s, hm, hr, hfd⟩ := socketAndPipe
  exact ⟨booted, s, booted_eq, hm, hr, hfd, fun fd n renv wenv => read_write_return booted_eq hm hr 0 fd n renv wenv⟩

def socketReadable : Sample sysStep booted [.call 0 (.pipe true), .call 0 (.close 0), .call 0 (.socket 2 2 0)]
    (fun _ _ => True) (fun s => (argfd s 0 0).any (fun x => (s.ftable x.2).type = .socket ∧
      (s.ftable x.2).readable = true) = true) := .eval (by decide +kernel)

def socketWritable : Sample sysStep booted [.call 0 (.pipe true), .call 0 (.close 1), .call 0 (.socket 2 2 0)]
    (fun _ _ => True) (fun s => (argfd s 0 1).any (fun x => (s.ftable x.2).type = .socket ∧
      (s.ftable x.2).writable = true) = true) := .eval (by decide +kernel)

/-- One end of a pipe is closed, and a socket gets its entry with the flag that the pipe left: reading from it, or
writing to it, is a panic. -/
theorem read_write_panic :
    (∃ s₀ s, socketInit (.start bareHost) = some s₀ ∧
      run sysStep s₀ [.call 0 (.pipe true), .call 0 (.close 0), .call 0 (.socket 2 2 0)] = some s ∧
      ∀ n renv, sysRead s 0 0 n renv = .error (.panic "fileread")) ∧
    ∃ s₀ s, socketInit (.start bareHost) = some s₀ ∧
      run sysStep s₀ [.call 0 (.pipe true), .call 0 (.close 1), .call 0 (.socket 2 2 0)] = some s ∧
      ∀ n wenv, sysWrite s 0 1 n wenv = .error (.panic "filewrite") := by
  constructor
  · obtain ⟨s, -, hr, hP⟩ := socketReadable
    obtain ⟨x, hx, hx'⟩ := (Option.any_eq_true ..).mp hP
    obtain ⟨ht, hf⟩ := of_decide_eq_true hx'
    exact ⟨booted, s, booted_eq, hr, fun n renv => by simp [sysRead, hx, fileread, ht, hf]⟩
  · obtain ⟨s, -, hr, hP⟩ := socketWritable
    obtain ⟨x, hx, hx'⟩ := (Option.any_eq_true ..).mp hP
    obtain ⟨ht, hf⟩ := of_decide_eq_true hx'
    exact ⟨booted, s, booted_eq, hr, fun n wenv => by simp [sysWrite, hx, filewrite, ht, hf]⟩

/-! ## Whose socket a call works on -/

/-- In every state that is reached, a call on a socket keeps to the sockets of its caller exactly where `OwnCall`
holds. -/
theorem socket_calls_confined_iff {h : Host} {as : List Act} {s : State} (hr : Reaches h as s) (p : Slot)
    (c : SockCall) : Confined s p c ↔ OwnCall s p c := by
  have hl := hr.listed
  have hsize : (MAX_SOCKET_CAPACITY : Int) < s.sockList.size := Int.lt_of_lt_of_le (by decide) hl.all
  exact confined_iff hsize hl.quiet c

def oneSocket : Sample sysStep booted [.call 0 (.socket 2 1 0)] (fun _ _ => True)
    (fun s => (s.own 0 0).isSome ∧ s.sockList.socks 0 = s.own 0 0 ∧
      ((s.own 0 0).bind s.rest).any (fun x => x.fd = 0) = true) := .eval (by decide +kernel)

/-- A process that sends on its own descriptor, and one that listens on its only socket. -/
theorem socket_calls_confined_iff_two :
    ∃ s, Reaches bareHost [.call 0 (.socket 2 1 0)] s ∧ Confined s 0 (.send 0) ∧ Confined s 0 (.listen 0) := by
  obtain ⟨s, -, hr, hown, hlist, hfd⟩ := oneSocket
  have hreach : Reaches bareHost [.call 0 (.socket 2 1 0)] s := ⟨booted, booted_eq, hr⟩
  obtain ⟨a, ha⟩ := Option.isSome_iff_exists.mp hown
  rw [ha] at hlist hfd
  obtain ⟨x, hx, hx'⟩ := (Option.any_eq_true ..).mp hfd
  have hzero : (0 : Int) ≤ 0 ∧ (0 : Int) < NOFILE := by decide
  refine ⟨s, hreach, (socket_calls_confined_iff hreach 0 (.send 0)).mpr hzero,
    (socket_calls_confined_iff hreach 0 _).mpr
      ⟨a, ⟨0, by decide, hlist, ⟨⟨0, by decide⟩, ha⟩, ⟨x, hx, of_decide_eq_true hx'⟩, ?_⟩, ha⟩⟩
  intro i hi
  exact absurd hi (Nat.not_lt_zero i)

def listensElsewhere : Sample sysStep booted [.call 0 (.fork 1), .call 0 (.socket 2 1 0),
    .call 0 (.sock (.bind 0 (some ⟨⟨htons 1, 0⟩, 2⟩) 16))] (fun _ _ => True)
    (fun s => (sockCall s 1 (.bind 16 none 16)).inRange = false ∧
      (s.own 0 0).any (fun a => a ∈ (sockCall s 1 (.listen 0)).reads ∧ ¬ s.Holds 1 a ∧
        (s.host.socks a).state = .bound ∧ (sockCall s 1 (.listen 0)).result.toOption.any (fun x =>
          x.1 = some 0 ∧ (x.2.host.socks a).state = .listening) = true) = true) := .eval (by decide +kernel)

/-- Process 0 binds a TCP socket, and process 1, which has no descriptor at all, makes it listen. With the
descriptor 16 a call reads behind the table. -/
theorem socket_calls_cross :
    ∃ s, Reaches bareHost [.call 0 (.fork 1), .call 0 (.socket 2 1 0),
        .call 0 (.sock (.bind 0 (some ⟨⟨htons 1, 0⟩, 2⟩) 16))] s ∧
      ¬ Confined s 1 (.listen 0) ∧ ¬ Confined s 1 (.bind 16 none 16) ∧
      ∃ a t, s.own 0 0 = some a ∧ ¬ s.Holds 1 a ∧ (s.host.socks a).state = .bound ∧
        (sockCall s 1 (.listen 0)).result = .ok (some 0, t) ∧ (t.host.socks a).state = .listening := by
  obtain ⟨s, -, hr, hbind, hP⟩ := listensElsewhere
  obtain ⟨a, ha, ha'⟩ := (Option.any_eq_true ..).mp hP
  obtain ⟨hread, hheld, hbound, hres⟩ := of_decide_eq_true ha'
  obtain ⟨x, hx, hx'⟩ := (Option.any_eq_true ..).mp hres
  obtain ⟨hx0, hlisten⟩ := of_decide_eq_true hx'
  refine ⟨s, ⟨booted, booted_eq, hr⟩, fun hc => hheld (hc.reads a hread), fun hc => ?_, a, x.2, ha, hheld, hbound, ?_, hlisten⟩
  · have hin := hc.inRange
    rw [hbind] at hin; cases hin
  · cases hres' : (sockCall s 1 (.listen 0)).result with
    | error e => rw [hres'] at hx; cases hx
    | ok y => rw [hres'] at hx; cases hx; rw [← hx0]

/-! ## The lists of sockets -/

/-- A list whose size is beyond the capacity does not count its entries. -/
theorem not_repOk {l : SockList} (h : freshSize ≤ l.size) : ¬ l.RepOk := by
  rintro ⟨n, hn, hsize, -⟩
  have hlt : (MAX_SOCKET_CAPACITY : Int) < freshSize := by decide
  omega

/-- In every state that is reached from `socket_init` on, no list counts its entries, and looking up a number that no
socket in the list has ends in a null pointer or behind the page of pointers. -/
theorem socket_lists_broken {h : Host} {as : List Act} {s : State} (hr : Reaches h as s) :
    ¬ s.sockList.RepOk ∧ ¬ s.tcpSockList.RepOk ∧ ¬ s.udpSockList.RepOk ∧
      ∀ fd, (∀ i < MAX_SOCKET_CAPACITY, ∀ a x, s.sockList.socks i = some a → s.rest a = some x → x.fd ≠ fd) →
        ∃ e, (getsock s fd).2 = .error e := by
  have hl := hr.listed
  have hsize : (MAX_SOCKET_CAPACITY : Int) < s.sockList.size := Int.lt_of_lt_of_le (by decide) hl.all
  refine ⟨not_repOk hl.all, not_repOk hl.tcp, not_repOk hl.udp, fun fd hfd => ?_⟩
  cases hg : (getsock s fd).2 with
  | error e => exact ⟨e, rfl⟩
  | ok o =>
      cases o with
      | none => exact absurd hg (getsockFrom_ne_none _ 0 (by rwa [Nat.zero_add]))
      | some a =>
          obtain ⟨k, hk, ha, -, ⟨x, hx, hxfd⟩, -⟩ := getsockFrom_sound (P := fun _ => True) hg fun _ _ => trivial
          exact absurd hxfd (hfd k (by omega) a x ha hx)

def oneListed : Sample sysStep booted [.call 0 (.socket 2 2 0)] (fun _ _ => True)
    (fun s => s.sockList.size = 84215046 ∧ (match (getsock s 3).2 with
      | .error e => decide (e = .fault)
      | .ok _ => false) = true) := .eval (by decide +kernel)

/-- After one call of `socket` the size is 84215046, and looking up the descriptor 3 reads through a null pointer. -/
theorem socket_lists_broken_one :
    ∃ s, Reaches bareHost [.call 0 (.socket 2 2 0)] s ∧ s.sockList.size = 84215046 ∧
      ¬ s.sockList.RepOk ∧ ¬ s.tcpSockList.RepOk ∧ ¬ s.udpSockList.RepOk ∧ (getsock s 3).2 = .error .fault := by
  obtain ⟨s, -, hr, hsize, hget⟩ := oneListed
  have hreach : Reaches bareHost [.call 0 (.socket 2 2 0)] s := ⟨booted, booted_eq, hr⟩
  obtain ⟨h1, h2, h3, -⟩ := socket_lists_broken hreach
  refine ⟨s, hreach, hsize, h1, h2, h3, ?_⟩
  revert hget
  cases (getsock s 3).2 with
  | error e => exact fun he => congrArg _ (of_decide_eq_true he)
  | ok o => exact nofun

/-- Right after `socket_init` every size is 84215045 and no list has an entry; the first lookup reads through a null
pointer. -/
theorem socket_lists_after_init :
    ∃ s, socketInit (.start bareHost) = some s ∧ s.sockList.size = 84215045 ∧ (∀ i, s.sockList.socks i = none) ∧
      ¬ s.sockList.RepOk ∧ ∀ fd, (getsock s fd).2 = .error .fault := by
  have hfresh : booted.sockList = .fresh := by
    have hs := booted_eq
    generalize booted = s at hs ⊢
    unfold socketInit at hs
    split at hs
    · cases hs
    · cases hs; rfl
  refine ⟨booted, booted_eq, by rw [hfresh]; rfl, fun i => by rw [hfresh]; rfl, not_repOk (by rw [hfresh]; decide), fun fd => ?_⟩
  have hpos : ((0 : Nat) : Int) < booted.sockList.size := by rw [hfresh]; decide
  exact congrArg Prod.snd (@getsockFrom_null booted fd 0 511 hpos (by rw [hfresh]; rfl))

/-! ## `socket` -/

/-- In every state whose unused entries of the file table have no type, `socket` is all or nothing exactly where
`SocketFits` holds. -/
theorem socket_allOrNothing_iff {s : State} (hnone : ∀ f, (s.ftable f).ref = 0 → (s.ftable f).type = .none)
    (p : Slot) (family type protocol : Int) :
    AllOrNothing s p family type protocol ↔ SocketFits s p family type protocol := by
  unfold SocketFits
  cases hfree : s.host.kmem.freelist with
  | nil => exact iff_of_true (allOrNothing_of_no_page hfree) trivial
  | cons sock pages =>
      have hk : kalloc s.host.kmem = (some sock, (kalloc s.host.kmem).2) := Prod.ext (kalloc_cons hfree).1 rfl
      by_cases hgives : s.firstFree ≠ none ∧ s.firstFd p ≠ none
      · obtain ⟨f, hf⟩ := Option.ne_none_iff_exists'.mp hgives.1
        obtain ⟨fd, hfd⟩ := Option.ne_none_iff_exists'.mp hgives.2
        rw [allOrNothing_of_returns hk hf hfd]
        cases acceptedProtocol family type protocol with
        | none =>
            refine ⟨fun ⟨o, ho, _⟩ => (nomatch ho), fun h => ?_⟩
            exact absurd h (not_or.mpr hgives)
        | some o =>
            dsimp only
            rw [if_pos hgives]
            exact ⟨fun ⟨o', ho, h⟩ => by cases ho; exact h, fun h => ⟨o, rfl, h⟩⟩
      · have hno : s.firstFree = none ∨ s.firstFd p = none := by
          rwa [not_and_or, not_not, not_not] at hgives
        rw [allOrNothing_of_fails hk hnone hno]
        cases acceptedProtocol family type protocol with
        | none => exact ⟨fun _ => hno, fun _ o ho => nomatch ho⟩
        | some o =>
            dsimp only
            rw [if_neg hgives]
            exact ⟨fun h => h o rfl, fun h o' ho => by cases ho; exact h⟩

/-- There is room for a socket everywhere. -/
def nothingYet : Sample sysStep booted [] (fun _ _ => True)
    (fun s => s.firstFree ≠ none ∧ s.firstFd 0 ≠ none ∧ 0 < s.host.kmem.freelist.length ∧
      (∀ f, (s.ftable f).ref = 0 → (s.ftable f).type = .none) ∧ s.sockList.size ≠ (MAX_SOCKET_CAPACITY : Int) ∧
      s.sockList.firstNull ≠ none ∧ s.udpSockList.firstNull ≠ none) := .eval (by decide +kernel)

/-- The first socket of the machine. -/
theorem socket_allOrNothing_iff_first :
    ∃ s, socketInit (.start bareHost) = some s ∧ AllOrNothing s 0 2 2 0 := by
  obtain ⟨s, -, hr, hff, hfd, -, hnone, hsize, hn, hn'⟩ := nothingYet
  cases hr
  refine ⟨booted, booted_eq, (socket_allOrNothing_iff hnone 0 2 2 0).mpr ?_⟩
  unfold SocketFits
  split
  · trivial
  · have ho : acceptedProtocol 2 2 0 = some .udp := by decide
    rw [ho]
    dsimp only
    rw [if_pos ⟨hff, hfd⟩]
    exact ⟨.inr ⟨hsize, hn⟩, .inr ⟨hsize, hn'⟩⟩

def noDescriptor : Sample sysStep booted (.call 0 (.pipe true) :: .replicate 14 (.call 0 (.dup 0))) (fun _ _ => True)
    (fun s => 0 < s.host.kmem.freelist.length ∧ s.firstFd 0 = none ∧
      (∀ f, (s.ftable f).ref = 0 → (s.ftable f).type = .none) ∧
      s.sockList.size ≠ (MAX_SOCKET_CAPACITY : Int) ∧ s.sockList.firstNull.isSome = true) := .eval (by decide +kernel)

/-- A family that `initsocket` refuses still gets a descriptor. And with all descriptors of the process in use, the
call returns -1 and leaves an entry for the page it has freed in the lists. -/
theorem socket_allOrNothing_fails :
    (∃ s, Reaches bareHost [] s ∧ ¬ AllOrNothing s 0 99 1 0) ∧
    ∃ s, Reaches bareHost (.call 0 (.pipe true) :: .replicate 14 (.call 0 (.dup 0))) s ∧ ¬ AllOrNothing s 0 2 2 0 ∧
      ∃ a t, sysSocket s 0 2 2 0 = .ok (some (-1), t) ∧ a ∈ t.host.kmem.freelist ∧ t.sockList.Has a := by
  constructor
  · obtain ⟨s, -, hr, hff, hfd, hlen, -⟩ := nothingYet
    obtain ⟨f, hf⟩ := Option.ne_none_iff_exists'.mp hff
    obtain ⟨fd, hfd⟩ := Option.ne_none_iff_exists'.mp hfd
    obtain ⟨sock, k, hk⟩ := kalloc_isSome hlen
    refine ⟨s, ⟨booted, booted_eq, hr⟩, fun hall => ?_⟩
    obtain ⟨o, ho, -⟩ := (allOrNothing_of_returns hk hf hfd).mp hall
    cases ho
  · obtain ⟨s, -, hr, hlen, hfd, hnone, hsize, hn⟩ := noDescriptor
    obtain ⟨sock, k, hk⟩ := kalloc_isSome hlen
    obtain ⟨i, hi⟩ := Option.isSome_iff_exists.mp hn
    have ho : acceptedProtocol 2 2 0 = some .udp := by decide
    refine ⟨s, ⟨booted, booted_eq, hr⟩, fun hall => ?_, ?_⟩
    · have hroom := (allOrNothing_of_fails hk hnone (.inr hfd)).mp hall .udp ho
      rw [hi] at hroom
      rcases hroom with h | ⟨h, -⟩
      · exact hsize h
      · cases h
    · obtain ⟨t, k', ht, -, hpages, hsock⟩ := sysSocket_fails 2 2 0 hk hnone (.inr hfd)
      have hlist := hsock.lists
      rw [ho] at hlist
      refine ⟨sock, t, ht, ?_, ?_⟩
      · rw [hsock.host, hpages, (kalloc_eq_some hk).1]; exact List.mem_cons_self
      · rw [(hlist.of_room hsize).1]
        exact SockList.has_insert_iff.mpr (.inr (by rw [hi]; exact nofun))

/-! ## The port tables -/

theorem bareHost_unbound : Unbound bareHost :=
  ⟨⟨fun _ => rfl, fun _ => ⟨rfl, rfl⟩⟩, fun _ _ => rfl, by decide⟩

/-- The tables agree with the sockets in the states that runs reach without a second bind of a socket, and in no
others. -/
theorem port_tables_agree_iff {h : Host} {s₀ s : State} {as : List PortAct} (hu : Unbound h)
    (h₀ : socketInit (.start h) = some s₀) (hr : run portStep s₀ as = some s) :
    TablesAgree s ↔ RunMeets portStep BindsOnce s₀ as := by
  have hboot : ∃ qs, PortInv s₀ qs := ⟨_, .boot hu h₀⟩
  have hstep : ∀ s a t, (∃ qs, PortInv s qs) → portStep s a = some t → ∃ qs, PortInv t qs :=
    fun s a t ⟨_, hi⟩ ht => (hi.step ht).1
  obtain ⟨qs, hi⟩ := run_keeps' hstep hboot hr
  rw [hi.agree_iff]
  constructor
  · -- a socket that was bound twice keeps its two entries
    intro hone
    by_contra hnot
    refine run_marks (B := fun s => ¬ OneEntry s) hstep (fun s a t ⟨_, hi⟩ hg ht => ?_) (fun s a t ⟨_, hi⟩ hb ht => ?_)
      hboot hnot hr hone
    · exact (hi.step ht).2.twoEntries hi hg
    · exact (hi.step ht).2.not_oneEntry hb
  · intro hmeets
    have hempty : OneEntry s₀ := fun o port hp _ _ b _ hb => by
      rw [boot_portBinds hu h₀ o hp] at hb; cases hb
    have hkeeps := run_keeps (I := fun s => (∃ qs, PortInv s qs) ∧ OneEntry s) (fun s a t ⟨⟨qs, hi⟩, hone⟩ hg ht =>
      ⟨(hi.step ht).1, (hi.step ht).2.oneEntry hi hg hone⟩) ⟨hboot, hempty⟩ hmeets hr
    exact hkeeps.2

def boundOnce : Sample portStep booted
    [.socket 0 2 2 0, .udpBind (PHYSTOP - 7 * PGSIZE) (some ⟨htons 7, 0⟩) 16, .socket 0 2 1 0,
      .tcpBind (PHYSTOP - 9 * PGSIZE) (some ⟨⟨htons 1, 0⟩, 2⟩) 16, .tcpListen (PHYSTOP - 9 * PGSIZE),
      .udpBind (PHYSTOP - 7 * PGSIZE) (some ⟨htons 600, 0⟩) 16] BindsOnce
    (fun s => (s.portBinds .udp 7).isSome = true ∧ (s.portBinds .tcp 1).isSome = true) := .eval (by decide +kernel)

/-- A UDP socket at port 7 and a TCP socket at port 1, and a bind of the first one that is refused. -/
theorem port_tables_agree_iff_two :
    ∃ s₀ s, socketInit (.start bareHost) = some s₀ ∧
      run portStep s₀ [.socket 0 2 2 0, .udpBind (PHYSTOP - 7 * PGSIZE) (some ⟨htons 7, 0⟩) 16, .socket 0 2 1 0,
        .tcpBind (PHYSTOP - 9 * PGSIZE) (some ⟨⟨htons 1, 0⟩, 2⟩) 16, .tcpListen (PHYSTOP - 9 * PGSIZE),
        .udpBind (PHYSTOP - 7 * PGSIZE) (some ⟨htons 600, 0⟩) 16] = some s ∧
      ((s.portBinds .udp 7).isSome = true ∧ (s.portBinds .tcp 1).isSome = true) ∧ TablesAgree s := by
  obtain ⟨s, hm, hr, hP⟩ := boundOnce
  exact ⟨booted, s, booted_eq, hr, hP, (port_tables_agree_iff bareHost_unbound booted_eq hr).mpr hm⟩

def boundTwice : Sample portStep booted
    [.socket 0 2 2 0, .udpBind (PHYSTOP - 7 * PGSIZE) (some ⟨htons 7, 0⟩) 16,
      .udpBind (PHYSTOP - 7 * PGSIZE) (some ⟨htons 8, 0⟩) 16] (fun _ _ => True)
    (fun s => (s.host.socks (PHYSTOP - 7 * PGSIZE)).srcPort = 8 ∧
      (s.portBinds .udp 7).map (·.sock) = some (PHYSTOP - 7 * PGSIZE) ∧ s.IsSock (PHYSTOP - 7 * PGSIZE) .udp ∧
      (s.host.socks (PHYSTOP - 7 * PGSIZE)).state = .bound) := .eval (by decide +kernel)

/-- A UDP socket that is bound to port 7 and then to port 8 is in the table twice. -/
theorem port_tables_disagree :
    ∃ s₀ s, socketInit (.start bareHost) = some s₀ ∧
      run portStep s₀ [.socket 0 2 2 0, .udpBind (PHYSTOP - 7 * PGSIZE) (some ⟨htons 7, 0⟩) 16,
        .udpBind (PHYSTOP - 7 * PGSIZE) (some ⟨htons 8, 0⟩) 16] = some s ∧
      (s.host.socks (PHYSTOP - 7 * PGSIZE)).srcPort = 8 ∧
      (s.portBinds .udp 7).map (·.sock) = some (PHYSTOP - 7 * PGSIZE) ∧ ¬ TablesAgree s := by
  obtain ⟨s, -, hr, hport, hold, -⟩ := boundTwice
  refine ⟨booted, s, booted_eq, hr, hport, hold, fun ha => ?_⟩
  obtain ⟨b, hb, hsock⟩ := Option.map_eq_some_iff.mp hold
  have := (ha .udp 7 (by decide) b hb).srcPort
  rw [hsock, hport] at this
  cases this

/-- In every state that is reached, a socket that is bound or listens is found at its own port, and what is answered to
a bound UDP socket comes to its queue and to no other. -/
theorem return_path {h : Host} {as : List PortAct} {s : State} (hu : Unbound h) (hr : PortReaches h as s) :
    ReturnPath s ∧ ∃ qs, Queues s.host qs ∧
      ∀ a, s.IsSock a .udp → (s.host.socks a).state = .bound → AnswersQueued s.host qs a := by
  obtain ⟨qs, hi⟩ := hr.inv hu
  refine ⟨fun a x hx hst => ?_, qs, hi.sane.queues, fun a => hi.answers⟩
  have hkind := hi.kind a x hx
  cases ho : x.ops with
  | none =>
      -- a socket whose arguments were refused never gets a state
      rw [ho] at hkind
      rw [hkind.2] at hst
      exact hst.elim nofun nofun
  | some o =>
      have hne : (s.host.socks a).state ≠ .closed := by
        rcases hst with hst | hst <;> rw [hst] <;> exact nofun
      obtain ⟨hp, b, hb, hs⟩ := hi.path a o (isSock_iff.mpr ⟨x, hx, ho⟩) hne
      exact ⟨o, b, rfl, hp, hb, hs⟩

/-- A UDP socket that is bound, and bound again to another port. -/
theorem return_path_rebound :
    ∃ s qs, PortReaches bareHost [.socket 0 2 2 0, .udpBind (PHYSTOP - 7 * PGSIZE) (some ⟨htons 7, 0⟩) 16,
        .udpBind (PHYSTOP - 7 * PGSIZE) (some ⟨htons 8, 0⟩) 16] s ∧
      (s.host.socks (PHYSTOP - 7 * PGSIZE)).srcPort = 8 ∧ ReturnPath s ∧ Queues s.host qs ∧
      AnswersQueued s.host qs (PHYSTOP - 7 * PGSIZE) := by
  obtain ⟨s, -, hr, hport, -, hsock, hst⟩ := boundTwice
  obtain ⟨hpath, qs, hqs, hans⟩ := return_path bareHost_unbound ⟨booted, booted_eq, hr⟩
  exact ⟨s, qs, ⟨booted, booted_eq, hr⟩, hport, hpath, hqs, hans _ hsock hst⟩

/-! ## Passive open -/

/-- `handle_tcp_packet` never changes the state of a socket that a run has made. So it does what it should exactly for
the segments that should change nothing, whatever `parse_tcp_packet` makes of them. -/
theorem passive_open_iff {h : Host} {as : List PortAct} {s : State} {buf : List UInt8} {tcpPkt : TcpFrame}
    (hu : Unbound h) (hr : PortReaches h as s)
    (hport : tcpPkt.hdr.dstPort.toNat < MAX_PORT_BINDINGS) :
    PassiveOpen s.host buf tcpPkt ↔ ¬ (OpensOnWire buf ∧ ∃ a, ListensTo s.host tcpPkt a) := by
  obtain ⟨qs, hi⟩ := hr.inv hu
  have hsame := hi.handleTcpPacket hport
  constructor
  · intro hopen ⟨hwire, a, hlisten⟩
    have hstate := hopen.opens a hwire hlisten
    rw [hsame, hlisten.1] at hstate
    cases hstate
  · intro hnot
    refine ⟨fun a hwire hlisten => absurd ⟨hwire, a, hlisten⟩ hnot, fun a _ => ?_⟩
    rw [hsame]

/-- A segment to port 1 from port 80, with a header of 20 bytes. -/
def segment (flags : UInt8) : List UInt8 := [0, 80, 0, 1, 0, 0, 0, 7, 0, 0, 0, 0, 0x50, flags, 4, 0, 0, 0, 0, 0]

def listens : Sample portStep booted
    [.socket 0 2 1 0, .tcpBind (PHYSTOP - 7 * PGSIZE) (some ⟨⟨htons 1, 0⟩, 2⟩) 16, .tcpListen (PHYSTOP - 7 * PGSIZE)]
    (fun _ _ => True) (fun s => (s.host.tcpPortBinds 1).map (·.sock) = some (PHYSTOP - 7 * PGSIZE) ∧
      (s.host.socks (PHYSTOP - 7 * PGSIZE)).state = .listening ∧
      ∀ tcpPkt ∈ parseTcpPacket (segment 2) 20, (handleTcpPacket s.host tcpPkt).1 = 0 ∧
        ((handleTcpPacket s.host tcpPkt).2.socks (PHYSTOP - 7 * PGSIZE)).state = .listening) := .eval (by decide +kernel)

/-- An ACK changes nothing. -/
theorem passive_open_iff_ack :
    ∃ s tcpPkt, PortReaches bareHost [.socket 0 2 1 0, .tcpBind (PHYSTOP - 7 * PGSIZE) (some ⟨⟨htons 1, 0⟩, 2⟩) 16,
        .tcpListen (PHYSTOP - 7 * PGSIZE)] s ∧
      parseTcpPacket (segment 0x10) 20 = some tcpPkt ∧ PassiveOpen s.host (segment 0x10) tcpPkt := by
  obtain ⟨s, -, hr, -⟩ := listens
  have hparse : parseTcpPacket (segment 0x10) 20 = some ⟨⟨80, 1, 7, 0, 5, 0x10, 1024, 0, 0⟩, [], 0⟩ := by rfl
  refine ⟨s, _, ⟨booted, booted_eq, hr⟩, hparse, ?_⟩
  exact (passive_open_iff bareHost_unbound ⟨booted, booted_eq, hr⟩ (by decide)).mpr fun h => absurd h.1 (by decide)

/-- A SYN comes to a socket that listens, and the socket goes on listening. -/
theorem passive_open_fails :
    ∃ s tcpPkt, PortReaches bareHost [.socket 0 2 1 0, .tcpBind (PHYSTOP - 7 * PGSIZE) (some ⟨⟨htons 1, 0⟩, 2⟩) 16,
        .tcpListen (PHYSTOP - 7 * PGSIZE)] s ∧
      parseTcpPacket (segment 2) 20 = some tcpPkt ∧ tcpPkt.hdr.dstPort = 1 ∧ OpensOnWire (segment 2) ∧
      ListensTo s.host tcpPkt (PHYSTOP - 7 * PGSIZE) ∧
      ((handleTcpPacket s.host tcpPkt).2.socks (PHYSTOP - 7 * PGSIZE)).state = .listening ∧
      ¬ PassiveOpen s.host (segment 2) tcpPkt := by
  obtain ⟨s, -, hr, hbind, hstate, hsame⟩ := listens
  have hparse : parseTcpPacket (segment 2) 20 = some ⟨⟨80, 1, 7, 0, 5, 2, 1024, 0, 0⟩, [], 0⟩ := by rfl
  obtain ⟨b, hb, hsock⟩ := Option.map_eq_some_iff.mp hbind
  have hwire : OpensOnWire (segment 2) := by decide
  have hlisten : ListensTo s.host ⟨⟨80, 1, 7, 0, 5, 2, 1024, 0, 0⟩, [], 0⟩ (PHYSTOP - 7 * PGSIZE) := ⟨hstate, b, hb, hsock⟩
  have hkept := (hsame _ hparse).2
  refine ⟨s, _, ⟨booted, booted_eq, hr⟩, hparse, rfl, hwire, hlisten, hkept, fun hopen => ?_⟩
  have := hopen.opens _ hwire hlisten
  rw [hkept] at this
  cases this

/-! ## References to files -/

/-- After any calls that make, copy or drop descriptors, with any of their failures, the count of every entry of the
file table is the number of descriptors that refer to it. So no call ends in the panic of `filedup` or of `fileclose`,
and `filealloc` takes an entry that no descriptor refers to. -/
theorem file_refs_exact {w₀ w : World} {as : List (Slot × WorldCall)} (h₀ : w₀.Fresh)
    (hrun : run worldStep w₀ as = some w) :
    (∀ f, (w.sys.ftable f).ref = pointers w.sys.slots f) ∧
      (∀ p c e, w.MayCall p c → worldCall w p c = .error (.file e) →
        e ≠ .panic "filedup" ∧ e ≠ .panic "fileclose") ∧
      ∀ f s, filealloc w.sys = some (f, s) → ∀ p fd, w.sys.ofile p fd ≠ some f := by
  have h : WorldInv w := run_keeps' (fun _ _ _ hi ht => WorldInv.step hi ht) h₀.inv hrun
  refine ⟨h.files.refs, fun p c e hc he => h.raises hc _ he e rfl, fun f s hf p fd hfd => ?_⟩
  have hopen := h.files.opened hfd
  rw [(filealloc_eq_some hf).1] at hopen
  cases hopen

/-- The sample machine, with no file open. -/
def World.sample : World where
  sys := .start { bareHost with kmem := Machine.sample.kmem }
  proc := Machine.sample.proc
  nextpid := Machine.sample.nextpid
  initproc := Machine.sample.initproc
  trampoline := Machine.sample.trampoline

def firstFile : Fin NFILE := ⟨0, by decide⟩

def sharesAndEnds : List (Slot × WorldCall) :=
  [(0, .pipe true), (0, .fork), (1, .createThread), (2, .dup 0), (1, .close 0), (2, .threadExit 0), (1, .exit 0),
    (0, .wait 0)]

def sharedFiles : Sample worldStep .sample (sharesAndEnds.take 5) (fun _ _ => True)
    (fun w => (w.sys.ftable firstFile).ref = 3) := .eval (by decide +kernel)

def endedFiles : Sample worldStep .sample sharesAndEnds (fun _ _ => True)
    (fun w => (w.sys.ftable firstFile).ref = 1) := .eval (by decide +kernel)

/-- A pipe whose descriptors go to a child and to a thread of it, which all end. -/
theorem file_refs_exact_family :
    (∃ w, run worldStep .sample (sharesAndEnds.take 5) = some w ∧ pointers w.sys.slots firstFile = 3) ∧
      ∃ w, run worldStep .sample sharesAndEnds = some w ∧ pointers w.sys.slots firstFile = 1 := by
  have h₀ : World.sample.Fresh := ⟨fun _ => rfl, fun _ _ => rfl⟩
  obtain ⟨w, -, hw, href⟩ := sharedFiles
  obtain ⟨w', -, hw', href'⟩ := endedFiles
  refine ⟨⟨w, hw, ?_⟩, w', hw', ?_⟩
  · rw [← (file_refs_exact h₀ hw).1 firstFile, href]
  · rw [← (file_refs_exact h₀ hw').1 firstFile, href']

/-! ## Pipes -/

/-- In every order of any number of writes, reads and closes on a pipe, no more than `PIPESIZE` bytes wait in it; the
bytes that readers took, followed by those that wait, are the bytes that writers put; and a read of at least one byte
to a valid buffer returns 0 only if the pipe is empty and its write end is closed. -/
theorem pipe_fifo {data : Nat → UInt8} {as : List PipeAct} {s : PipeSys}
    (hs : run pipeStep (.start data) as = some s) :
    (s.pipe.nwrite - s.pipe.nread).toNat ≤ PIPESIZE ∧ s.taken ++ s.pipe.buffered = s.put ∧ ZeroIsEnd s.pipe := by
  have h := run_keeps' (fun _ _ _ hi ht => PipeFifo.step hi ht) (PipeFifo.start data) hs
  exact ⟨h.bounded, h.fifo, zeroIsEnd s.pipe⟩

/-- A process that is not killed, with the bytes 0, 1, 2, … at its buffer. -/
def PipeEnv.counting : PipeEnv := ⟨fun _ => false, fun i => some (.ofNat i), fun _ => true⟩

def fillsAndDrains : Sample pipeStep (.start fun _ => 0)
    [.write 0 600 .counting, .read 1 100 .counting, .wake 0 .counting, .close true, .read 1 3 .counting]
    (fun _ _ => True) (fun s => s.taken.length = 103 ∧ s.put.length = 600) := .eval (by decide +kernel)

/-- A write of 600 bytes sleeps on the full pipe and goes on after a read. -/
theorem pipe_fifo_full :
    ∃ s, run pipeStep (.start fun _ => 0)
        [.write 0 600 .counting, .read 1 100 .counting, .wake 0 .counting, .close true, .read 1 3 .counting] = some s ∧
      s.taken.length = 103 ∧ s.put.length = 600 ∧ s.taken ++ s.pipe.buffered = s.put := by
  obtain ⟨s, -, hs, htaken, hput⟩ := fillsAndDrains
  exact ⟨s, hs, htaken, hput, (pipe_fifo hs).2.1⟩

/-! ## The end of a group of threads -/

/-- When a thread calls `exit`, the directories and open files of the threads in its parent's table and of the caller
are given up once, no null pointer is put and all of them end with the status, exactly if no member comes twice in the
group, which the caller does when it stands in the table, and each still has its directory. -/
theorem exit_releases_once_iff {t : Tasks} {p q : Slot} (hthread : (t.machine.proc p).isThread = true)
    (hparent : (t.machine.proc p).parent = some q) (status : Int) :
    (ReleasedOnce t (t.group q p) status (exitLogged t p status) ↔
      (t.group q p).Nodup ∧ (∀ r ∈ t.group q p, (t.machine.proc r).cwd = true) ∧ p ≠ t.machine.initproc) ∧
    (exitLogged t p status).val.map Tasks.machine = exit t.machine p status :=
  ⟨releasedOnce_iff hthread hparent, exitLogged_machine t p status⟩

def firstFd : Fin NOFILE := ⟨0, by decide⟩

/-- A machine whose processes hold one file at their first descriptor. -/
def Tasks.oneFile (m : Machine) : Tasks := ⟨m, fun _ fd => if fd = firstFd then some firstFile else none⟩

/-- A process with a thread ends and leaves the thread to the first process, which makes a thread of its own. -/
def orphanThread : Sample procStep Machine.sample [.fork 0, .createThread 1, .exit 1 0, .createThread 0] (fun _ _ => True)
    (fun m => ((m.proc 2).isThread = true ∧ (m.proc 2).parent = some 0) ∧
      (Tasks.oneFile m).group 0 2 = [3, 2] ∧ ((m.proc 3).cwd = true ∧ (m.proc 2).cwd = true) ∧ 2 ≠ m.initproc) :=
  .eval (by decide +kernel)

theorem exit_releases_once_iff_orphan :
    ∃ m, run procStep Machine.sample [.fork 0, .createThread 1, .exit 1 0, .createThread 0] = some m ∧
      ReleasedOnce (.oneFile m) [3, 2] 7 (exitLogged (.oneFile m) 2 7) := by
  obtain ⟨m, -, hm, ⟨hthread, hparent⟩, hgroup, hcwd, hinit⟩ := orphanThread
  refine ⟨m, hm, ?_⟩
  rw [← hgroup]
  refine (exit_releases_once_iff hthread hparent 7).1.mpr ⟨?_, ?_, hinit⟩
  · rw [hgroup]
    decide
  · rw [hgroup]
    simpa [Tasks.oneFile] using hcwd

def threadOfFirst : Sample procStep Machine.sample [.createThread 0] (fun _ _ => True)
    (fun m => ((m.proc 1).isThread = true ∧ (m.proc 1).parent = some 0) ∧
      (exitLogged (Tasks.oneFile m) 1 0).log = [.fileclose 1 firstFd firstFile, .iput 1 true, .iput 1 false]) :=
  .eval (by decide +kernel)

/-- The first process makes a thread, which calls `exit`: the loop over the table ends the caller, and the rest of `exit`
puts its directory again, which is null now. -/
theorem exit_releases_once_fails :
    ∃ m, run procStep Machine.sample [.createThread 0] = some m ∧
      ((m.proc 1).isThread = true ∧ (m.proc 1).parent = some 0) ∧
      (exitLogged (.oneFile m) 1 0).log = [.fileclose 1 firstFd firstFile, .iput 1 true, .iput 1 false] ∧
      ¬ ReleasedOnce (.oneFile m) (Tasks.group (.oneFile m) 0 1) 0 (exitLogged (.oneFile m) 1 0) := by
  obtain ⟨m, -, hm, hthread, hlog⟩ := threadOfFirst
  refine ⟨m, hm, hthread, hlog, fun h => h.not_null 1 ?_⟩
  rw [hlog]
  decide

end Xv6Net.Sys
