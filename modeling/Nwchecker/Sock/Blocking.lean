import Nwchecker.Lib.Machine
import Nwchecker.Sock.Candidates
import Nwchecker.Tcp.Handler
import Nwchecker.Udp.Handler

/-!
# Descriptors in the looper

The handlers of a process with their sockets: listens, connects, accepts and closes in any order.
Whatever is registered with the looper should not block it.

`nwc_sock_create` sets `O_NONBLOCK` for every socket that the handlers ask it for. The descriptors
that `accept` returns do not come from there, and nobody sets it for them: `nonBlocking_iff`.
-/

namespace Nwchecker

open Descriptors Machine

/-! ## Handlers of both kinds -/

inductive IoHandler where
  | tcp (h : NwcTcpHandler)
  | udp (h : NwcUdpHandler)
  deriving DecidableEq, Repr

namespace IoHandler

def fd : IoHandler → Int
  | .tcp h => h.fd
  | .udp h => h.fd

def hHandle : IoHandler → Option EpollEntry
  | .tcp h => h.hHandle
  | .udp h => h.hHandle

/-- The descriptor that `nwc_io_close` closes. -/
def closes : IoHandler → Option Int
  | .tcp h => if h.state = .closed then none else some h.fd
  | .udp h => some h.fd

end IoHandler

/-- `epoll_ctl(EPOLL_CTL_ADD)` refuses what is not open, and otherwise answers as it likes. -/
def epollAdd (d : SocketTable) (fd answer : Int) : Int :=
  if (d.file fd).isNone then EBADF else answer

/--
`nwc_tcp_handle_input` of a listening handler after `accept` answered `newfd`: the new handler, if
there is one. `op` says whether `on_accept` returned an operation.
-/
def nwcTcpHandleAccept (h : NwcTcpHandler) (d : SocketTable) (newfd : Int) (op : Bool) (add : Int)
    (eh : Nat) : Option (Option NwcTcpHandler × SocketTable) :=
  if newfd = -1 then some (none, d)
  else
    match d.opened newfd SocketFile.new with
    | none => none
    | some d =>
      if h.ioop then
        if op then
          some (some (nwcTcpHandlerAccept (nwcTcpHandlerInit true) newfd (epollAdd d newfd add) eh),
            d)
        else some (none, d.closed newfd)
      else some (none, d.closed newfd)

/-! ## The machine -/

/-- The handlers that `nwc_io_create` and `accept` have made and that are not closed. -/
structure LoopHandlers where
  sockets : SocketTable
  handlers : List IoHandler

namespace LoopHandlers

inductive Event where
  | tcpListen (resolve : Resolver) (ip : String) (port : UInt16) (as : List SockAnswers)
      (listen add : Int)
  | udpListen (resolve : Resolver) (ip : String) (port : UInt16) (as : List SockAnswers) (add : Int)
  | tcpConnect (resolve : Resolver) (hostname : String) (port : UInt16) (as : List SockAnswers)
      (add : Int)
  | udpConnect (resolve : Resolver) (hostname : String) (port : UInt16) (as : List SockAnswers)
      (add : Int)
  /-- The TCP listener `i` is readable. -/
  | accept (i : Nat) (newfd : Int) (op : Bool) (add : Int)
  /-- `nwc_io_close` -/
  | close (i : Nat)

/-- A handler comes to the others. -/
def join (s : LoopHandlers) (d : SocketTable) (h : IoHandler) : LoopHandlers where
  sockets := d
  handlers := s.handlers ++ [h]

def step (s : LoopHandlers) : Event → Option LoopHandlers
  | .tcpListen resolve ip port as listen add =>
    (nwcSockListen resolve s.sockets AF_INET SOCK_STREAM ip port as listen).map fun (fd, d) =>
      s.join d (.tcp (nwcTcpHandlerListen (nwcTcpHandlerInit true) fd (epollAdd d fd add)
        s.handlers.length).2)
  | .udpListen resolve ip port as add =>
    (nwcSockListen resolve s.sockets AF_INET SOCK_DGRAM ip port as 0).map fun (fd, d) =>
      s.join d (.udp (nwcUdpHandlerListen (nwcUdpHandlerInit true) fd (epollAdd d fd add)
        s.handlers.length).2)
  | .tcpConnect resolve hostname port as add =>
    (nwcSockConnect resolve s.sockets hostname port.toUInt8 as).map fun (rc, fd, d) =>
      s.join d (.tcp (nwcTcpHandlerConnect (nwcTcpHandlerInit true) rc fd (epollAdd d fd add)
        s.handlers.length).2)
  | .udpConnect resolve hostname port as add =>
    (nwcSockConnect resolve s.sockets hostname port.toUInt8 as).map fun (rc, fd, d) =>
      s.join d (.udp (nwcUdpHandlerConnect (nwcUdpHandlerInit true) rc fd (epollAdd d fd add)
        s.handlers.length).2)
  | .accept i newfd op add =>
    match s.handlers[i]? with
    | some (.tcp h) =>
      if h.state = .listen ∧ h.armed then
        (nwcTcpHandleAccept h s.sockets newfd op add s.handlers.length).map fun (new, d) =>
          match new with
          | some h => s.join d (.tcp h)
          | none => { s with sockets := d }
      else none
    | _ => none
  | .close i =>
    match s.handlers[i]? with
    | some h =>
      some
        { sockets :=
            match h.closes with
            | some fd => s.sockets.closed fd
            | none => s.sockets
          handlers := s.handlers.eraseIdx i }
    | none => none

/-- A process without handlers, whatever it has open. -/
def start (sockets : SocketTable) : LoopHandlers where
  sockets := sockets
  handlers := []

/-! ## The property and the condition -/

/-- Every descriptor in the looper is open and in non-blocking mode. -/
def NonBlocking (s : LoopHandlers) : Prop :=
  ∀ h ∈ s.handlers, ∀ e ∈ h.hHandle, e.armed = true →
    ∃ f ∈ s.sockets.file e.fd, f.nonblock = true

instance (s : LoopHandlers) : Decidable s.NonBlocking :=
  inferInstanceAs (Decidable (∀ h ∈ s.handlers, ∀ e ∈ h.hHandle, e.armed = true →
    ∃ f ∈ s.sockets.file e.fd, f.nonblock = true))

/-- No connection that a listener accepted is registered with the looper. -/
def AcceptsNone : Event → Prop
  | .accept _ newfd op add => newfd = -1 ∨ op = false ∨ add ≠ 0
  | _ => True

instance (e : Event) : Decidable (AcceptsNone e) :=
  match e with
  | .accept _ newfd op add => inferInstanceAs (Decidable (newfd = -1 ∨ op = false ∨ add ≠ 0))
  | .tcpListen .. => isTrue trivial
  | .udpListen .. => isTrue trivial
  | .tcpConnect .. => isTrue trivial
  | .udpConnect .. => isTrue trivial
  | .close _ => isTrue trivial

/-! ## The invariant -/

/-- The handlers `a` and `b` do not share a descriptor. -/
def Apart (a b : IoHandler) : Prop := a.fd = b.fd → a.fd = -1

theorem Apart.symm {a b : IoHandler} (h : Apart a b) : Apart b a := by
  intro hfd
  rw [hfd]
  exact h hfd.symm

/-- A handler that is in order: what it holds is open, and does not block when it is registered. -/
structure InOrder (d : SocketTable) (h : IoHandler) : Prop where
  opened : h.fd ≠ -1 → d.file h.fd ≠ none
  entry : ∀ e ∈ h.hHandle, e.fd = h.fd
  nonblock : h.hHandle ≠ none → ∃ f ∈ d.file h.fd, f.nonblock = true

/-- `nwc_io_create` refuses a handler without an operation. -/
def HasOp : IoHandler → Prop
  | .tcp h => h.ioop = true
  | .udp h => h.ioop = true

/-- Every handler is in order, and has a descriptor of its own. -/
structure Inv (s : LoopHandlers) : Prop where
  inOrder : ∀ h ∈ s.handlers, InOrder s.sockets h
  hasOp : ∀ h ∈ s.handlers, HasOp h
  apart : s.handlers.Pairwise Apart

variable {s t : LoopHandlers} {d d' : SocketTable} {h : IoHandler} {fd : Int}

theorem Inv.nonBlocking (hi : s.Inv) : s.NonBlocking := by
  intro h hh e he _
  have hin := hi.inOrder h hh
  rw [hin.entry e he]
  refine hin.nonblock ?_
  intro hnone
  rw [hnone] at he
  cases he

/-- Only what is behind the handler's own descriptor matters. -/
theorem InOrder.of_agree (hin : InOrder d h) (hagree : h.fd ≠ -1 → d'.file h.fd = d.file h.fd) :
    InOrder d' h := by
  refine ⟨fun hfd => ?_, hin.entry, fun hreg => ?_⟩
  · rw [hagree hfd]
    exact hin.opened hfd
  · obtain ⟨f, hf, hnb⟩ := hin.nonblock hreg
    have hfd : h.fd ≠ -1 := by
      intro hneg
      rw [hneg, Table.file_neg d (by decide)] at hf
      cases hf
    exact ⟨f, by rw [hagree hfd]; exact hf, hnb⟩

/-! ## New handlers -/

/-- A new handler holds `fd`, or nothing, and is registered if the system says so. -/
structure Holds (h : IoHandler) (fd add : Int) : Prop where
  hasOp : HasOp h
  fd : h.fd = fd ∨ (h.fd = -1 ∧ h.hHandle = none)
  entry : ∀ e ∈ h.hHandle, e.fd = h.fd
  add : h.hHandle ≠ none → add = 0

theorem nwcEpollAddHandler_holds {add : Int} {eh : Nat} {events : EventMask} {e : EpollEntry}
    (he : e ∈ (nwcEpollAddHandler fd eh add).map (nwcEpollRegisterEvent · events)) :
    e.fd = fd ∧ add = 0 := by
  unfold nwcEpollAddHandler at he
  split at he
  · next hadd =>
    cases he
    exact ⟨rfl, hadd⟩
  · cases he

/-- A handler that is attached to `fd`. -/
theorem Holds.attached {add : Int} {eh : Nat} {events : EventMask} (hop : HasOp h)
    (hfd : h.fd = fd)
    (hh : h.hHandle = (nwcEpollAddHandler fd eh add).map (nwcEpollRegisterEvent · events)) :
    Holds h fd add := by
  refine ⟨hop, Or.inl hfd, fun e he => ?_, fun hne => ?_⟩
  · rw [hh] at he
    rw [hfd]
    exact (nwcEpollAddHandler_holds he).1
  · obtain ⟨e, he⟩ := Option.ne_none_iff_exists'.mp hne
    rw [hh] at he
    exact (nwcEpollAddHandler_holds he).2

/-- A handler that is not attached. -/
theorem Holds.idle {add : Int} (hop : HasOp h) (hfd : h.fd = -1) (hh : h.hHandle = none) :
    Holds h fd add := by
  refine ⟨hop, Or.inr ⟨hfd, hh⟩, fun e he => ?_, fun hne => absurd hh hne⟩
  rw [hh] at he
  cases he

theorem tcpListen_holds (add : Int) (eh : Nat) :
    Holds (.tcp (nwcTcpHandlerListen (nwcTcpHandlerInit true) fd add eh).2) fd add := by
  unfold nwcTcpHandlerListen
  split
  · exact Holds.idle rfl rfl rfl
  · exact Holds.attached rfl rfl rfl

theorem udpListen_holds (add : Int) (eh : Nat) :
    Holds (.udp (nwcUdpHandlerListen (nwcUdpHandlerInit true) fd add eh).2) fd add := by
  unfold nwcUdpHandlerListen
  split
  · exact Holds.idle rfl rfl rfl
  · exact Holds.attached rfl rfl rfl

theorem tcpConnect_holds (rc add : Int) (eh : Nat) :
    Holds (.tcp (nwcTcpHandlerConnect (nwcTcpHandlerInit true) rc fd add eh).2) fd add := by
  unfold nwcTcpHandlerConnect
  dsimp only
  split
  · exact Holds.attached rfl rfl rfl
  · split
    · exact Holds.attached rfl rfl rfl
    · exact Holds.idle rfl rfl rfl

theorem udpConnect_holds (rc add : Int) (eh : Nat) :
    Holds (.udp (nwcUdpHandlerConnect (nwcUdpHandlerInit true) rc fd add eh).2) fd add := by
  unfold nwcUdpHandlerConnect
  split
  · exact Holds.idle rfl rfl rfl
  · exact Holds.attached rfl rfl rfl

/-! ## Steps -/

/-- The handlers that are there already stay in order while sockets are opened. -/
theorem InOrder.keep (hin : InOrder d h) (hkeep : ∀ x, d.file x ≠ none → d'.file x = d.file x) :
    InOrder d' h := by
  refine hin.of_agree fun hfd => hkeep _ (hin.opened hfd)

/-- A handler comes whose descriptor has just been opened. -/
theorem Inv.join (hi : s.Inv) (hkeep : ∀ x, s.sockets.file x ≠ none → d.file x = s.sockets.file x)
    (hin : InOrder d h) (hop : HasOp h) (hnew : h.fd ≠ -1 → s.sockets.file h.fd = none) :
    (s.join d h).Inv := by
  refine ⟨?_, ?_, ?_⟩
  · intro h' hh'
    rcases List.mem_append.mp hh' with hh' | hh'
    · exact (hi.inOrder h' hh').keep hkeep
    · rw [List.mem_singleton.mp hh']
      exact hin
  · intro h' hh'
    rcases List.mem_append.mp hh' with hh' | hh'
    · exact hi.hasOp h' hh'
    · rw [List.mem_singleton.mp hh']
      exact hop
  · refine List.pairwise_append.mpr ⟨hi.apart, List.pairwise_singleton _ _, fun a ha b hb => ?_⟩
    rw [List.mem_singleton.mp hb]
    intro hfd
    by_contra hne
    refine (hi.inOrder a ha).opened hne ?_
    rw [hfd] at hne ⊢
    exact hnew hne

/-- A handler comes whose descriptor `nwc_sock.c` has opened. -/
theorem Inv.join_obtained (hi : s.Inv) {answer : Int} (hob : ObtainsOrNot s.sockets d fd)
    (hh : Holds h fd (epollAdd d fd answer)) : (s.join d h).Inv := by
  refine hi.join (fun x hx => hob.keeps hx) ⟨fun hfd => ?_, hh.entry, fun hreg => ?_⟩ hh.hasOp
    fun hfd => ?_
  · rcases hh.fd with hfd' | ⟨hneg, -⟩
    · rcases hob with ⟨hneg, -⟩ | hob
      · exact absurd (hfd'.trans hneg) hfd
      · obtain ⟨f, hf, -⟩ := hob.socket
        rw [hfd', hf]
        exact Option.some_ne_none f
    · exact absurd hneg hfd
  · rcases hh.fd with hfd' | ⟨-, hnone⟩
    · rw [hfd']
      have hadd := hh.add hreg
      unfold epollAdd at hadd
      split at hadd
      · cases hadd
      · next hopen =>
        rcases hob with ⟨hneg, -⟩ | hob
        · rw [hneg, Table.file_neg d (by decide)] at hopen
          exact absurd rfl hopen
        · exact hob.socket
    · exact absurd hnone hreg
  · rcases hh.fd with hfd' | ⟨hneg, -⟩
    · rcases hob with ⟨hneg, -⟩ | hob
      · exact absurd (hfd'.trans hneg) hfd
      · rw [hfd']
        exact hob.fresh
    · exact absurd hneg hfd

/-- A handler goes, and its descriptor is closed. -/
theorem Inv.close (hi : s.Inv) {i : Nat} (hi' : s.handlers[i]? = some h) :
    Inv
      { sockets :=
          match h.closes with
          | some fd => s.sockets.closed fd
          | none => s.sockets
        handlers := s.handlers.eraseIdx i } := by
  obtain ⟨hlt, rfl⟩ := List.getElem?_eq_some_iff.mp hi'
  have hsub : (s.handlers.eraseIdx i).Sublist s.handlers := List.eraseIdx_sublist _ _
  have happart : ∀ h' ∈ s.handlers.eraseIdx i, Apart s.handlers[i] h' := by
    have hsplit : s.handlers = s.handlers.take i ++ s.handlers[i] :: s.handlers.drop (i + 1) := by
      rw [← List.drop_eq_getElem_cons hlt, List.take_append_drop]
    have hpair := hi.apart
    rw [hsplit] at hpair
    obtain ⟨-, hback, hfront⟩ := List.pairwise_append.mp hpair
    intro h' hh'
    rw [List.eraseIdx_eq_take_drop_succ] at hh'
    rcases List.mem_append.mp hh' with hh' | hh'
    · exact (hfront h' hh' _ List.mem_cons_self).symm
    · exact (List.pairwise_cons.mp hback).1 h' hh'
  refine ⟨fun h' hh' => ?_, fun h' hh' => hi.hasOp h' (hsub.subset hh'), hi.apart.sublist hsub⟩
  have hin := hi.inOrder h' (hsub.subset hh')
  have hcloses : s.handlers[i].closes = none ∨ s.handlers[i].closes = some s.handlers[i].fd := by
    cases s.handlers[i] with
    | tcp h =>
      simp only [IoHandler.closes, IoHandler.fd]
      split
      · exact Or.inl rfl
      · exact Or.inr rfl
    | udp h => exact Or.inr rfl
  rcases hcloses with hc | hc
  · simp only [hc]
    exact hin
  · simp only [hc]
    refine hin.of_agree fun hfd => Table.closed_other _ ?_
    intro heq
    have hneg := happart h' hh' heq.symm
    rw [heq] at hfd
    exact hfd hneg

/-- What becomes of a connection that is ready to be accepted. -/
theorem handleAccept_cases {l : NwcTcpHandler} (hl : l.ioop = true) {newfd add : Int} {op : Bool}
    {eh : Nat} {new : Option NwcTcpHandler}
    (h : nwcTcpHandleAccept l d newfd op add eh = some (new, d')) :
    ((newfd = -1 ∨ op = false) ∧ new = none ∧ d' = d) ∨
    (newfd ≠ -1 ∧ op = true ∧ d.opened newfd SocketFile.new = some d' ∧
      new = some (nwcTcpHandlerAccept (nwcTcpHandlerInit true) newfd add eh)) := by
  unfold nwcTcpHandleAccept at h
  split at h
  · next hfd =>
    cases h
    exact Or.inl ⟨Or.inl hfd, rfl, rfl⟩
  · next hfd =>
    split at h
    · cases h
    · next d₁ hopen =>
      split at h
      · next hop =>
        obtain ⟨-, -, hfile, -⟩ := Table.opened_cases hopen
        have hadd : epollAdd d₁ newfd add = add := by
          unfold epollAdd
          rw [hfile]
          exact if_neg (by decide)
        cases h
        exact Or.inr ⟨hfd, hop, hopen, by rw [hadd]⟩
      · next hop =>
        cases h
        exact Or.inl ⟨Or.inr (Bool.not_eq_true op ▸ hop), rfl, Table.closed_opened hopen⟩

/-- The ways an accept goes. -/
theorem Inv.accept_cases (hi : s.Inv) {i : Nat} {newfd add : Int} {op : Bool}
    (h : s.step (.accept i newfd op add) = some t) :
    ((newfd = -1 ∨ op = false) ∧ t = s) ∨
    ∃ d, newfd ≠ -1 ∧ op = true ∧ s.sockets.opened newfd SocketFile.new = some d ∧
      t = s.join d (.tcp (nwcTcpHandlerAccept (nwcTcpHandlerInit true) newfd add
        s.handlers.length)) := by
  simp only [step] at h
  split at h
  · next l hl =>
    split at h
    · obtain ⟨⟨new, d⟩, hacc, rfl⟩ := Option.map_eq_some_iff.mp h
      have hop := hi.hasOp _ (List.mem_of_getElem? hl)
      rcases handleAccept_cases hop hacc with ⟨hnone, rfl, rfl⟩ | ⟨hfd, hop, hopen, rfl⟩
      · exact Or.inl ⟨hnone, rfl⟩
      · exact Or.inr ⟨d, hfd, hop, hopen, rfl⟩
    · cases h
  · cases h

/-- While no accepted connection is registered, everything stays in order. -/
theorem Inv.step (hi : s.Inv) {e : Event} (hgood : AcceptsNone e) (h : s.step e = some t) :
    t.Inv := by
  cases e with
  | tcpListen resolve ip port as listen add =>
    obtain ⟨⟨fd, d⟩, hlisten, rfl⟩ := Option.map_eq_some_iff.mp h
    exact hi.join_obtained (nwcSockListen_obtains hlisten) (tcpListen_holds _ _)
  | udpListen resolve ip port as add =>
    obtain ⟨⟨fd, d⟩, hlisten, rfl⟩ := Option.map_eq_some_iff.mp h
    exact hi.join_obtained (nwcSockListen_obtains hlisten) (udpListen_holds _ _)
  | tcpConnect resolve hostname port as add =>
    obtain ⟨⟨rc, fd, d⟩, hconnect, rfl⟩ := Option.map_eq_some_iff.mp h
    exact hi.join_obtained (nwcSockConnect_obtains hconnect) (tcpConnect_holds _ _ _)
  | udpConnect resolve hostname port as add =>
    obtain ⟨⟨rc, fd, d⟩, hconnect, rfl⟩ := Option.map_eq_some_iff.mp h
    exact hi.join_obtained (nwcSockConnect_obtains hconnect) (udpConnect_holds _ _ _)
  | accept i newfd op add =>
    rcases hi.accept_cases h with ⟨-, rfl⟩ | ⟨d, hfd, hop, hopen, rfl⟩
    · exact hi
    · obtain ⟨-, hfresh, hfile, -⟩ := Table.opened_cases hopen
      have hadd : add ≠ 0 := by
        rcases hgood with hneg | hnone | hadd
        · exact absurd hneg hfd
        · rw [hop] at hnone
          cases hnone
        · exact hadd
      -- the looper has refused it
      have hhandle : (nwcTcpHandlerAccept (nwcTcpHandlerInit true) newfd add
          s.handlers.length).hHandle = none := by
        simp [nwcTcpHandlerAccept, NwcTcpHandler.registerEvent, nwcEpollAddHandler, hadd]
      refine hi.join (fun x hx => Table.opened_other hopen hx) ⟨fun _ => ?_, ?_, ?_⟩
        rfl fun _ => hfresh
      · show d.file newfd ≠ none
        rw [hfile]
        exact Option.some_ne_none _
      · intro e he
        simp only [IoHandler.hHandle, hhandle] at he
        cases he
      · exact fun hne => absurd hhandle hne
  | close i =>
    simp only [LoopHandlers.step] at h
    split at h
    · next h' hh' =>
      cases h
      exact hi.close hh'
    · cases h

/-- A registered descriptor that `accept` returned blocks. -/
theorem Inv.accepted_blocks (hi : s.Inv) {e : Event} (hbad : ¬AcceptsNone e)
    (h : s.step e = some t) : ¬t.NonBlocking := by
  cases e with
  | accept i newfd op add =>
    simp only [AcceptsNone, not_or, Decidable.not_not] at hbad
    obtain ⟨hfd, hop, rfl⟩ := hbad
    rcases hi.accept_cases h with ⟨hneg | hnone, -⟩ | ⟨d, -, -, hopen, rfl⟩
    · exact absurd hneg hfd
    · exact absurd hnone hop
    · obtain ⟨-, -, hfile, -⟩ := Table.opened_cases hopen
      intro hnb
      obtain ⟨f, hf, hblock⟩ := hnb _ (List.mem_append_right _ List.mem_cons_self)
        { mask := emNone.add EM_READ, fd := newfd, eh := s.handlers.length } rfl
        (by simpa [EpollEntry.armed, invalidFd] using hfd)
      rw [show (s.join d _).sockets.file newfd = d.file newfd from rfl, hfile] at hf
      cases hf
      cases hblock
  | tcpListen => exact absurd trivial hbad
  | udpListen => exact absurd trivial hbad
  | tcpConnect => exact absurd trivial hbad
  | udpConnect => exact absurd trivial hbad
  | close => exact absurd trivial hbad

theorem start_inv (sockets : SocketTable) : (start sockets).Inv where
  inOrder := fun _ hh => absurd hh List.not_mem_nil
  hasOp := fun _ hh => absurd hh List.not_mem_nil
  apart := List.Pairwise.nil

/--
**Descriptors in the looper do not block unless they were accepted.**

Along a run of listens, connects, accepts and closes in any order, every registered descriptor is in
non-blocking mode exactly if no connection that a TCP listener accepted is registered.
-/
theorem nonBlocking_iff (sockets : SocketTable) (events : List Event) (s : LoopHandlers)
    (hrun : replay step (start sockets) events = some s) :
    (∀ t, Visits step (start sockets) events t → t.NonBlocking) ↔ ∀ e ∈ events, AcceptsNone e := by
  rw [← along_events hrun]
  exact exact_rule (fun _ hi => hi.nonBlocking) (fun _ _ _ hi hgood hstep => hi.step hgood hstep)
    (fun _ _ _ hi hbad hstep => hi.accepted_blocks hbad hstep) (start_inv sockets) hrun

/-- A resolver that knows one address. -/
def oneAddress : Resolver :=
  fun _ _ => some
    [{ family := AF_INET, socktype := SOCK_STREAM, addr := { port := 800, addr := 1 } }]

/-- Descriptor 4 listens. -/
def listening : Event :=
  .tcpListen oneAddress "0.0.0.0" 800 [{ socket := 4, setsockopt := 0, attach := 0 }] 0 0

/-- A client that connects, and a listener whose accepted connection is refused by `on_accept`. -/
theorem connectAndRefuse_nonBlocking : ∃ s,
    replay step (start Table.empty)
      [listening, .accept 0 5 false 0,
        .tcpConnect oneAddress "localhost" 800
          [{ socket := 5, setsockopt := 0, attach := EINPROGRESS }] 0] = some s ∧
      s.NonBlocking := by
  obtain ⟨s, hs⟩ := Option.isSome_iff_exists.mp
    (show (replay step (start Table.empty)
      [listening, .accept 0 5 false 0,
        .tcpConnect oneAddress "localhost" 800
          [{ socket := 5, setsockopt := 0, attach := EINPROGRESS }] 0]).isSome by decide +kernel)
  exact ⟨s, hs, (nonBlocking_iff _ _ s hs).mpr (by decide) s ⟨_, List.prefix_rfl, hs⟩⟩

/-- The first connection that a listener accepts is in blocking mode. -/
theorem accepted_notNonBlocking : ∃ s,
    replay step (start Table.empty) [listening, .accept 0 5 true 0] = some s ∧
      ¬s.NonBlocking := by
  show ∃ s ∈ replay step (start Table.empty) [listening, .accept 0 5 true 0], ¬s.NonBlocking
  decide +kernel

end LoopHandlers

end Nwchecker
