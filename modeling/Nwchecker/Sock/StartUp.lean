import Nwchecker.Epoll.Kernel
import Nwchecker.Sock.Blocking
import Nwchecker.Sock.Candidates

/-!
# Start-up of a handler

`nwc_tcp_handler_listen`, `nwc_tcp_handler_connect`, `nwc_tcp_handler_accept` and their UDP
siblings with all they stand on: the sockets, the entry in the looper and the interest set in the
kernel. They end with `nwc_looper_add_handler` and `nwc_looper_register_event`, and look at the
result of neither.

So each of them is all or nothing when its socket cannot be had, or when everything succeeds after
that. `startUp_iff` says so for each of the five, with what goes wrong besides:
`nwc_udp_handler_connect` forgets a socket whose connect is in progress, and both connects take the
0 of `nwc_sock_connect` without a socket for a success.
-/

namespace Nwchecker

open Descriptors

def ENOMEM : Int := 12

/-! ## Two calls into the looper -/

/-- What becomes of a new entry: `malloc`, and the faults of `EPOLL_CTL_ADD` and `EPOLL_CTL_MOD`. -/
structure AttachEnv where
  alloc : Bool
  add : Int
  mod : Int

/-- Everything succeeds. -/
structure AttachEnv.Works (env : AttachEnv) : Prop where
  alloc : env.alloc = true
  add : env.add = 0
  mod : env.mod = 0

instance (env : AttachEnv) : Decidable env.Works :=
  decidable_of_iff (env.alloc = true ∧ env.add = 0 ∧ env.mod = 0)
    ⟨fun ⟨h₁, h₂, h₃⟩ => ⟨h₁, h₂, h₃⟩, fun ⟨h₁, h₂, h₃⟩ => ⟨h₁, h₂, h₃⟩⟩

/-- Whether there is an entry afterwards, as `nwcEpollAddHandler` wants to know. -/
def AttachEnv.answer (env : AttachEnv) (k : Interest) (fd : Int) : Int :=
  if env.alloc then (nwcEpollCtl k emNone fd .add env.add).1 else ENOMEM

/-- The interest sets after `nwc_looper_add_handler` and `nwc_looper_register_event`. -/
def AttachEnv.attach (env : AttachEnv) (k : Interest) (fd : Int) (eh : Nat) (events : EventMask) :
    Interest :=
  match nwcEpollAdd k fd eh env.alloc env.add with
  -- `nwc_looper_register_event` returns on `INVALID_HANDLE`
  | (none, k) => k
  | (some e, k) => (nwcEpollCtl k (nwcEpollRegisterEvent e events).mask e.fd .mod env.mod).2

variable {k : Interest} {fd : Int} {eh : Nat} {events : EventMask} {env : AttachEnv}

theorem AttachEnv.answer_eq (env : AttachEnv) (k : Interest) (fd : Int) (eh : Nat) :
    nwcEpollAddHandler fd eh (env.answer k fd) = (nwcEpollAdd k fd eh env.alloc env.add).1 := by
  unfold answer nwcEpollAdd
  split
  · rfl
  · simp [nwcEpollAddHandler, ENOMEM]

/-- The entry and the interest set of a descriptor are what they should be. -/
def RegisteredAs (hHandle : Option EpollEntry) (k : Interest) (fd : Int) (events : EventMask) :
    Prop :=
  (∃ eh, hHandle = some { mask := events, fd := fd, eh := eh }) ∧ k fd = some events.epollEvents

/-- A new descriptor is registered exactly when everything succeeds. -/
theorem AttachEnv.attach_iff (hnonneg : 0 ≤ fd) (hfree : k fd = none) (hread : events.read = true) :
    RegisteredAs
        ((nwcEpollAddHandler fd eh (env.answer k fd)).map (nwcEpollRegisterEvent · events))
        (env.attach k fd eh events) fd events ↔ env.Works := by
  have hadded : emNone.add events = events := by
    simp [EventMask.add, emNone]
  unfold RegisteredAs attach
  rw [env.answer_eq]
  rcases nwcEpollAdd_cases k fd eh env.alloc env.add with ⟨hfails, heq⟩ | ⟨⟨halloc, hworks⟩, heq⟩
  · rw [heq]
    refine iff_of_false (fun h => ?_) fun h => hfails ?_
    · obtain ⟨⟨eh', he⟩, -⟩ := h
      cases he
    · exact ⟨h.alloc, hnonneg, h.add, by simp [hfree]⟩
  · rw [heq]
    dsimp only [nwcEpollRegisterEvent, Option.map_some]
    rw [hadded]
    have hreg : Function.update k fd (some emNone.epollEvents) fd = some emNone.epollEvents :=
      Function.update_self ..
    rcases nwcEpollCtl_cases (Function.update k fd (some emNone.epollEvents)) events fd .mod
      env.mod with ⟨hfails, -, hk⟩ | ⟨⟨-, hmod, -⟩, hctl⟩
    · rw [hk, hreg]
      refine iff_of_false (fun h => ?_) fun h => hfails ⟨hnonneg, h.mod, by simp⟩
      have hbit := congrArg (Option.map EpollEvents.epollin) h.2
      simp [EventMask.epollEvents, emNone, hread] at hbit
    · rw [hctl]
      exact iff_of_true ⟨⟨eh, rfl⟩, Function.update_self ..⟩ ⟨halloc, hworks.2.1, hmod⟩

/-- A descriptor that is none cannot be registered. -/
theorem AttachEnv.answer_invalid (env : AttachEnv) (k : Interest) (hfd : fd < 0) :
    nwcEpollAddHandler fd eh (env.answer k fd) = none := by
  rw [env.answer_eq]
  rcases nwcEpollAdd_cases k fd eh env.alloc env.add with ⟨-, heq⟩ | ⟨⟨-, hnonneg, -⟩, -⟩
  · rw [heq]
  · omega

/-! ## The five functions -/

def IoHandler.state : IoHandler → Option NwcTcpState
  | .tcp h => some h.state
  | .udp _ => none

/--
The open sockets, and the interest sets of the looper. A descriptor that is closed is in none of
them.
-/
structure OpenFiles where
  sockets : SocketTable
  interest : Interest
  closed : ∀ fd, sockets.file fd = none → interest fd = none

/-- What a start-up returns, and the handler, the sockets and the interest sets after it. -/
structure Started where
  rc : Int
  handler : IoHandler
  sockets : SocketTable
  interest : Interest

namespace OpenFiles

/-- `nwc_tcp_handler_listen` -/
def tcpListen (p : OpenFiles) (h : NwcTcpHandler) (resolve : Resolver) (ip : String)
    (port : UInt16) (as : List SockAnswers) (listen : Int) (env : AttachEnv) (eh : Nat) :
    Option Started :=
  (nwcSockListen resolve p.sockets AF_INET SOCK_STREAM ip port as listen).map fun (fd, d) =>
    let r := nwcTcpHandlerListen h fd (env.answer p.interest fd) eh
    { rc := r.1
      handler := .tcp r.2
      sockets := d
      interest := if fd = -1 then p.interest else env.attach p.interest fd eh EM_READ }

/-- `nwc_tcp_handler_connect` -/
def tcpConnect (p : OpenFiles) (h : NwcTcpHandler) (resolve : Resolver) (hostname : String)
    (port : UInt16) (as : List SockAnswers) (env : AttachEnv) (eh : Nat) : Option Started :=
  (nwcSockConnect resolve p.sockets hostname port.toUInt8 as).map fun (rc, fd, d) =>
    let r := nwcTcpHandlerConnect h rc fd (env.answer p.interest fd) eh
    { rc := r.1
      handler := .tcp r.2
      sockets := d
      interest :=
        if rc = 0 then env.attach p.interest fd eh EM_READ
        else if rc = EINPROGRESS ∨ rc = EWOULDBLOCK then
          env.attach p.interest fd eh (EM_READ.add EM_WRITE)
        else p.interest }

/-- `nwc_tcp_handler_accept` for the descriptor that `accept` has returned -/
def tcpAccept (p : OpenFiles) (h : NwcTcpHandler) (newfd : Int) (env : AttachEnv) (eh : Nat) :
    Option Started :=
  (p.sockets.opened newfd SocketFile.new).map fun d =>
    { rc := 0
      handler := .tcp (nwcTcpHandlerAccept h newfd (env.answer p.interest newfd) eh)
      sockets := d
      interest := env.attach p.interest newfd eh EM_READ }

/-- `nwc_udp_handler_listen` -/
def udpListen (p : OpenFiles) (h : NwcUdpHandler) (resolve : Resolver) (ip : String)
    (port : UInt16) (as : List SockAnswers) (listen : Int) (env : AttachEnv) (eh : Nat) :
    Option Started :=
  (nwcSockListen resolve p.sockets AF_INET SOCK_DGRAM ip port as listen).map fun (fd, d) =>
    let r := nwcUdpHandlerListen h fd (env.answer p.interest fd) eh
    { rc := r.1
      handler := .udp r.2
      sockets := d
      interest := if fd = -1 then p.interest else env.attach p.interest fd eh EM_READ }

/-- `nwc_udp_handler_connect` -/
def udpConnect (p : OpenFiles) (h : NwcUdpHandler) (resolve : Resolver) (hostname : String)
    (port : UInt16) (as : List SockAnswers) (env : AttachEnv) (eh : Nat) : Option Started :=
  (nwcSockConnect resolve p.sockets hostname port.toUInt8 as).map fun (rc, fd, d) =>
    let r := nwcUdpHandlerConnect h rc fd (env.answer p.interest fd) eh
    { rc := r.1
      handler := .udp r.2
      sockets := d
      interest := if rc = 0 then env.attach p.interest fd eh EM_READ else p.interest }

/-! ## All or nothing -/

/-- The state that a start-up aims at, and the events it is to wait for. -/
structure Goal where
  state : Option NwcTcpState
  events : EventMask

/-- A result of `0` of `listen`, TCP or UDP, and of `accept`. -/
def goalAt (state : Option NwcTcpState) (rc : Int) : Option Goal :=
  if rc = 0 then some { state := state, events := EM_READ } else none

/-- The results of `nwc_tcp_handler_connect`. -/
def connectGoal (rc : Int) : Option Goal :=
  if rc = 0 then some { state := some .established, events := EM_READ }
  else if rc = -EINPROGRESS then
    some { state := some .connecting, events := EM_READ.add EM_WRITE }
  else none

/--
A start-up that reports success, or that it is in progress, has a new open descriptor which is
registered as intended, and has reached its state. One that reports an error leaves the handler and
the open sockets as they were.
-/
def AllOrNothing (p : OpenFiles) (h : IoHandler) (goal : Int → Option Goal) (s : Started) : Prop :=
  match goal s.rc with
  | some g => p.sockets.file s.handler.fd = none ∧ s.sockets.file s.handler.fd ≠ none ∧
      RegisteredAs s.handler.hHandle s.interest s.handler.fd g.events ∧ s.handler.state = g.state
  | none => s.handler.fd = h.fd ∧ s.handler.hHandle = h.hHandle ∧ s.handler.state = h.state ∧
      s.sockets = p.sockets

variable {p : OpenFiles} {h : IoHandler} {goal : Int → Option Goal} {s : Started} {fd : Int}
  {eh : Nat} {env : AttachEnv}

/-- A start-up that has come as far as the looper. -/
structure Reaches (p : OpenFiles) (s : Started) (g : Goal) (fd : Int) (eh : Nat)
    (env : AttachEnv) : Prop where
  handlerFd : s.handler.fd = fd
  hHandle : s.handler.hHandle = (nwcEpollAddHandler fd eh (env.answer p.interest fd)).map
    (nwcEpollRegisterEvent · g.events)
  state : s.handler.state = g.state
  interest : s.interest = env.attach p.interest fd eh g.events

/-- With a new descriptor it is all right exactly when everything succeeds there. -/
theorem allOrNothing_iff (g : Goal) (fd : Int) (eh : Nat) (hr : Reaches p s g fd eh env)
    (hgoal : goal s.rc = some g) (hnonneg : 0 ≤ fd) (hfresh : p.sockets.file fd = none)
    (hopen : s.sockets.file fd ≠ none) (hread : g.events.read = true) :
    AllOrNothing p h goal s ↔ env.Works := by
  rw [AllOrNothing, hgoal]
  dsimp only
  rw [hr.handlerFd, hr.hHandle, hr.interest, hr.state,
    AttachEnv.attach_iff hnonneg (p.closed fd hfresh) hread]
  exact ⟨fun hall => hall.2.2.1, fun hw => ⟨hfresh, hopen, hw, rfl⟩⟩

/-- Without a descriptor it is not. -/
theorem not_allOrNothing (g : Goal) (fd : Int) (eh : Nat) (hr : Reaches p s g fd eh env)
    (hgoal : goal s.rc = some g) (hfd : fd < 0) : ¬AllOrNothing p h goal s := by
  rw [AllOrNothing, hgoal]
  rintro ⟨-, -, ⟨⟨eh', he⟩, -⟩, -⟩
  rw [hr.hHandle, env.answer_invalid p.interest hfd] at he
  cases he

/-- An error that leaves no trace. -/
theorem allOrNothing_unchanged (hgoal : goal s.rc = none) (hhandler : s.handler = h)
    (hsockets : s.sockets = p.sockets) : AllOrNothing p h goal s := by
  rw [AllOrNothing, hgoal, hhandler]
  exact ⟨rfl, rfl, rfl, hsockets⟩

/-- A descriptor handed out is new and open. -/
theorem obtains_open {d d' : SocketTable} (hob : Obtains d d' fd) :
    d.file fd = none ∧ d'.file fd ≠ none := by
  obtain ⟨f, hf, -⟩ := hob.socket
  exact ⟨hob.fresh, by simp [hf]⟩

/-- What the two listens have in common. -/
theorem listen_iff {family socktype : Int} {resolve : Resolver} {ip : String} {port : UInt16}
    {as : List SockAnswers} {listen : Int} {d : SocketTable} {state : Option NwcTcpState} (eh : Nat)
    (hlisten : nwcSockListen resolve p.sockets family socktype ip port as listen = some (fd, d))
    (hs : s.sockets = d) (hnot : fd = -1 → s.rc = -1 ∧ s.handler = h)
    (hr : fd ≠ -1 → s.rc = 0 ∧ Reaches p s { state := state, events := EM_READ } fd eh env) :
    AllOrNothing p h (goalAt state) s ↔
      (ListenSucceeds resolve family socktype ip port as listen → env.Works) := by
  rcases nwcSockListen_cases hlisten with ⟨hyes, hob, -⟩ | ⟨hno, rfl, hd⟩
  · have hne : fd ≠ -1 := by
      have := hob.nonneg
      omega
    obtain ⟨hrc, hreaches⟩ := hr hne
    obtain ⟨hfresh, hopen⟩ := obtains_open hob
    have hgoal : goalAt state s.rc = some { state := state, events := EM_READ } := by
      rw [hrc]
      rfl
    rw [allOrNothing_iff _ fd eh hreaches hgoal hob.nonneg hfresh (hs ▸ hopen) rfl]
    exact ⟨fun hw _ => hw, fun hw => hw hyes⟩
  · obtain ⟨hrc, hhandler⟩ := hnot rfl
    refine iff_of_true (allOrNothing_unchanged ?_ hhandler (hs.trans hd)) fun hyes => ?_
    · rw [hrc]
      rfl
    · exact absurd hyes hno

theorem tcpListen_iff {h : NwcTcpHandler} {resolve : Resolver} {ip : String} {port : UInt16}
    {as : List SockAnswers} {listen : Int}
    (hs : p.tcpListen h resolve ip port as listen env eh = some s) :
    AllOrNothing p (.tcp h) (goalAt (some .listen)) s ↔
      (ListenSucceeds resolve AF_INET SOCK_STREAM ip port as listen → env.Works) := by
  obtain ⟨⟨fd, d⟩, hlisten, rfl⟩ := Option.map_eq_some_iff.mp hs
  by_cases hfd : fd = -1
  · simp only [nwcTcpHandlerListen, if_pos hfd]
    exact listen_iff eh hlisten rfl (fun _ => ⟨rfl, rfl⟩) fun hne => absurd hfd hne
  · simp only [nwcTcpHandlerListen, if_neg hfd]
    exact listen_iff eh hlisten rfl (fun heq => absurd heq hfd)
      fun _ => ⟨rfl, rfl, rfl, rfl, rfl⟩

theorem udpListen_iff {h : NwcUdpHandler} {resolve : Resolver} {ip : String} {port : UInt16}
    {as : List SockAnswers} {listen : Int}
    (hs : p.udpListen h resolve ip port as listen env eh = some s) :
    AllOrNothing p (.udp h) (goalAt none) s ↔
      (ListenSucceeds resolve AF_INET SOCK_DGRAM ip port as listen → env.Works) := by
  obtain ⟨⟨fd, d⟩, hlisten, rfl⟩ := Option.map_eq_some_iff.mp hs
  by_cases hfd : fd = -1
  · simp only [nwcUdpHandlerListen, if_pos hfd]
    exact listen_iff eh hlisten rfl (fun _ => ⟨rfl, rfl⟩) fun hne => absurd hfd hne
  · simp only [nwcUdpHandlerListen, if_neg hfd]
    exact listen_iff eh hlisten rfl (fun heq => absurd heq hfd)
      fun _ => ⟨rfl, rfl, rfl, rfl, rfl⟩

theorem tcpAccept_iff {h : NwcTcpHandler} {newfd : Int}
    (hs : p.tcpAccept h newfd env eh = some s) :
    AllOrNothing p (.tcp h) (goalAt (some .established)) s ↔ env.Works := by
  obtain ⟨d, hopened, rfl⟩ := Option.map_eq_some_iff.mp hs
  obtain ⟨hnonneg, hfresh, hself, -⟩ := Table.opened_cases hopened
  exact allOrNothing_iff { state := some .established, events := EM_READ } newfd eh
    ⟨rfl, rfl, rfl, rfl⟩ rfl hnonneg hfresh (by simp [hself]) rfl

theorem tcpConnect_iff {h : NwcTcpHandler} {resolve : Resolver} {hostname : String}
    {port : UInt16} {as : List SockAnswers}
    (hs : p.tcpConnect h resolve hostname port as env eh = some s) :
    AllOrNothing p (.tcp h) connectGoal s ↔
      HasSocket resolve hostname port.toUInt8 as ∧
        (ConnectSucceeds resolve hostname port.toUInt8 as → env.Works) := by
  obtain ⟨⟨rc, fd, d⟩, hconnect, rfl⟩ := Option.map_eq_some_iff.mp hs
  rw [← connectChoice_isSome]
  rcases nwcSockConnect_cases hconnect with ⟨c, hchoice, hsocket, -, hrc, hob, -⟩ |
    ⟨hchoice, hsocket, rfl, -, hd⟩ | ⟨hchoice, hsocket, rfl, rfl, -⟩
  · obtain ⟨hfresh, hopen⟩ := obtains_open hob
    have hcond : env.Works ↔ HasSocket resolve hostname port.toUInt8 as ∧
        ((connectChoice resolve hostname port.toUInt8 as).isSome → env.Works) := by
      rw [hchoice]
      exact ⟨fun hw => ⟨hsocket, fun _ => hw⟩, fun hw => hw.2 rfl⟩
    rw [← hcond]
    by_cases h0 : rc = 0
    · simp only [nwcTcpHandlerConnect, if_pos h0]
      exact allOrNothing_iff { state := some .established, events := EM_READ } fd eh
        ⟨rfl, rfl, rfl, rfl⟩ rfl hob.nonneg hfresh hopen rfl
    · have hprogress : rc = EINPROGRESS ∨ rc = EWOULDBLOCK := hrc.resolve_left h0
      simp only [nwcTcpHandlerConnect, if_neg h0, if_pos hprogress]
      exact allOrNothing_iff { state := some .connecting, events := EM_READ.add EM_WRITE } fd eh
        ⟨rfl, rfl, rfl, rfl⟩ rfl hob.nonneg hfresh hopen rfl
  · rw [hchoice]
    refine iff_of_true (allOrNothing_unchanged rfl rfl hd) ⟨hsocket, fun hsome => ?_⟩
    cases hsome
  · refine iff_of_false ?_ fun hcond => hsocket hcond.1
    exact not_allOrNothing { state := some .established, events := EM_READ } (-1) eh
      ⟨rfl, rfl, rfl, rfl⟩ rfl (by decide)

theorem udpConnect_iff {h : NwcUdpHandler} {resolve : Resolver} {hostname : String}
    {port : UInt16} {as : List SockAnswers}
    (hs : p.udpConnect h resolve hostname port as env eh = some s) :
    AllOrNothing p (.udp h) (goalAt none) s ↔
      HasSocket resolve hostname port.toUInt8 as ∧
        ∀ c, connectChoice resolve hostname port.toUInt8 as = some c →
          c.2.attach = 0 ∧ env.Works := by
  obtain ⟨⟨rc, fd, d⟩, hconnect, rfl⟩ := Option.map_eq_some_iff.mp hs
  rcases nwcSockConnect_cases hconnect with ⟨c, hchoice, hsocket, rfl, -, hob, -⟩ |
    ⟨hchoice, hsocket, rfl, -, hd⟩ | ⟨hchoice, hsocket, rfl, rfl, -⟩
  · obtain ⟨hfresh, hopen⟩ := obtains_open hob
    rw [hchoice]
    by_cases h0 : c.2.attach = 0
    · have hne : ¬c.2.attach ≠ 0 := fun hne => hne h0
      simp only [nwcUdpHandlerConnect, if_neg hne]
      rw [allOrNothing_iff { state := none, events := EM_READ } fd eh
        ⟨rfl, rfl, rfl, if_pos h0⟩ (if_pos h0) hob.nonneg hfresh hopen rfl]
      simp [hsocket, h0]
    · -- the socket is forgotten
      have hgoal : goalAt none c.2.attach = none := if_neg h0
      simp only [nwcUdpHandlerConnect, if_pos h0]
      refine iff_of_false (fun hall => ?_) fun hcond => h0 (hcond.2 c rfl).1
      rw [AllOrNothing] at hall
      simp only [hgoal] at hall
      rw [hall.2.2.2] at hopen
      exact hopen hfresh
  · rw [hchoice]
    refine iff_of_true (allOrNothing_unchanged rfl rfl hd) ⟨hsocket, fun c hc => ?_⟩
    cases hc
  · refine iff_of_false ?_ fun hcond => hsocket hcond.1
    exact not_allOrNothing { state := none, events := EM_READ } (-1) eh
      ⟨rfl, rfl, rfl, rfl⟩ rfl (by decide)

/--
**When a start-up is all or nothing.**

For every outcome of the socket calls, of `malloc` and of each `epoll_ctl`. A listen is when it
gets no socket, or the entry is allocated, added and changed. An accept is in the latter case. A
connect must have had a socket for one of the candidates; with UDP, moreover, the connect that it
goes by must not be in progress.
-/
theorem startUp_iff (p : OpenFiles) (env : AttachEnv) (eh : Nat) :
    (∀ h resolve ip port as listen s, p.tcpListen h resolve ip port as listen env eh = some s →
      (AllOrNothing p (.tcp h) (goalAt (some .listen)) s ↔
        (ListenSucceeds resolve AF_INET SOCK_STREAM ip port as listen → env.Works))) ∧
    (∀ h resolve hostname port as s, p.tcpConnect h resolve hostname port as env eh = some s →
      (AllOrNothing p (.tcp h) connectGoal s ↔
        HasSocket resolve hostname port.toUInt8 as ∧
          (ConnectSucceeds resolve hostname port.toUInt8 as → env.Works))) ∧
    (∀ h newfd s, p.tcpAccept h newfd env eh = some s →
      (AllOrNothing p (.tcp h) (goalAt (some .established)) s ↔ env.Works)) ∧
    (∀ h resolve ip port as listen s, p.udpListen h resolve ip port as listen env eh = some s →
      (AllOrNothing p (.udp h) (goalAt none) s ↔
        (ListenSucceeds resolve AF_INET SOCK_DGRAM ip port as listen → env.Works))) ∧
    (∀ h resolve hostname port as s, p.udpConnect h resolve hostname port as env eh = some s →
      (AllOrNothing p (.udp h) (goalAt none) s ↔
        HasSocket resolve hostname port.toUInt8 as ∧
          ∀ c, connectChoice resolve hostname port.toUInt8 as = some c →
            c.2.attach = 0 ∧ env.Works)) :=
  ⟨fun _ _ _ _ _ _ _ hs => tcpListen_iff hs, fun _ _ _ _ _ _ hs => tcpConnect_iff hs,
    fun _ _ _ hs => tcpAccept_iff hs, fun _ _ _ _ _ _ _ hs => udpListen_iff hs,
    fun _ _ _ _ _ _ hs => udpConnect_iff hs⟩

/-- Nothing is open. -/
def idle : OpenFiles where
  sockets := .empty
  interest := fun _ => none
  closed := fun _ _ => rfl

/-- A socket that is bound at once. -/
def firstTakes : List SockAnswers := [{ socket := 3, setsockopt := 0, attach := 0 }]

theorem listening_allOrNothing :
    ∃ s, idle.tcpListen (nwcTcpHandlerInit true) twoAddresses "any" 7 firstTakes 0
        { alloc := true, add := 0, mod := 0 } 0 = some s ∧ s.rc = 0 ∧
      AllOrNothing idle (.tcp (nwcTcpHandlerInit true)) (goalAt (some .listen)) s := by
  obtain ⟨s, hs, hrc⟩ : ∃ s, idle.tcpListen (nwcTcpHandlerInit true) twoAddresses "any" 7
      firstTakes 0 { alloc := true, add := 0, mod := 0 } 0 = some s ∧ s.rc = 0 := ⟨_, rfl, rfl⟩
  exact ⟨s, hs, hrc, ((startUp_iff idle _ 0).1 _ _ _ _ _ _ s hs).mpr fun _ => ⟨rfl, rfl, rfl⟩⟩

/-- Without memory for the entry the server reports success and is deaf. -/
theorem noMemory_not_allOrNothing :
    ∃ s, idle.tcpListen (nwcTcpHandlerInit true) twoAddresses "any" 7 firstTakes 0
        { alloc := false, add := 0, mod := 0 } 0 = some s ∧ s.rc = 0 ∧ s.handler.hHandle = none ∧
      ¬AllOrNothing idle (.tcp (nwcTcpHandlerInit true)) (goalAt (some .listen)) s := by
  refine ⟨_, rfl, rfl, rfl, fun h => ?_⟩
  obtain ⟨-, -, ⟨⟨eh, he⟩, -⟩, -⟩ := h
  cases he

end OpenFiles

end Nwchecker
