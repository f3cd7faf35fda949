import Nwchecker.Lib.Machine
import Nwchecker.ListHead
import Nwchecker.Process.Trace

/-!
# The process

A client or a TCP server as a whole: its connections with their handlers, the list `conn_hdr`,
and the log of what has been touched. One event is one call that `nwc_epoll_run` makes: an accept,
`handle_input` or `handle_output` of an entry that is still armed, or a worker. The calls come in
any order and with any answers of the system.

A released object keeps its contents and is not handed out again, so that the process goes on
after it has touched one.
-/

namespace Nwchecker

open Ring Machine Lifetime

/-! ## State -/

/-- A connection with its handler. `workers` says that the stat and send workers are registered. -/
structure Peer where
  session : Session
  workers : Bool

inductive Status where
  | running
  | stopped
  /-- It is in a loop it does not leave, or it followed a pointer into nowhere. -/
  | stuck
  deriving DecidableEq, Repr

/-- `bandwidth` is `cfg->bandwidth`. -/
structure World where
  mode : Mode
  bandwidth : Int
  peers : List Peer
  links : Links Nat
  log : Trace
  status : Status

/-- The node `conn_hdr`. -/
def connHdr : Nat := 0

/-- The node `conn_entry` of connection `i`. -/
def connEntry (i : Nat) : Nat := i + 1

/-- The connection that a node belongs to; `none` for `conn_hdr`. -/
def connOf : Nat → Option Nat
  | 0 => none
  | i + 1 => some i

/-! ## Turns -/

/-- What a call makes of a connection, and what it touched. -/
structure Turn where
  peer : Peer
  trace : Trace
  stuck : Bool

/-- A callback has ended, or not. `nwc_connection_close` cancels the workers. -/
def Turn.ofOutcome (p : Peer) (trace : Trace) : Outcome → Turn
  | .returned _ s => { peer := { p with session := s }, trace := trace, stuck := false }
  | .closed _ s => { peer := { session := s, workers := false }, trace := trace, stuck := false }
  | .inLoop s => { peer := { p with session := s }, trace := trace, stuck := true }
  | .wild s => { peer := { p with session := s }, trace := trace, stuck := true }

/-- `handle_input` of connection `i`. -/
def inputTurn (i : Nat) (p : Peer) (a : Arrival) : Turn :=
  match nwcTcpHandleInput p.session.io with
  | some _ =>
    Turn.ofOutcome p (handleInputTrace i ++ callTrace i ++ onRecvTrace i p.session a)
      (nwcConnectionOnRecv p.session a)
  | none => { peer := p, trace := handleInputTrace i, stuck := false }

/-- `handle_output` of connection `i`. -/
def outputTurn (i : Nat) (p : Peer) (soError : Int) (envs : List SendEnv) : Turn :=
  let r := nwcTcpHandleOutput p.session.io soError
  let s := { p.session with io := r.1 }
  let trace := handleOutputTrace i p.session.io soError
  match r.2 with
  | some .onConnect =>
    { peer := { session := s, workers := true }
      trace := trace ++ callTrace i ++ onConnectTrace i
      stuck := false }
  | some .onSend =>
    Turn.ofOutcome { p with session := s } (trace ++ callTrace i ++ onSendTrace i s envs)
      (nwcConnectionOnSend s envs)
  | _ => { peer := { p with session := s }, trace := trace, stuck := false }

/-- The send worker of connection `i`. -/
def tickTurn (i : Nat) (p : Peer) (envs : List SendEnv) : Turn :=
  Turn.ofOutcome p (onSendTrace i p.session envs) (nwcConnectionOnSend p.session envs)

/-- The stat worker of connection `i`. -/
def statTurn (i : Nat) (p : Peer) (now : UInt32) : Turn where
  peer := { p with session := (nwcConnectionStat p.session now).1 }
  trace := [.read (.conn i) .qos, .write (.conn i) .qos]
  stuck := false

/-! ## The machine -/

inductive WorldEvent where
  /-- The listener is readable: `accept` returned `newfd`, `malloc` returned the rest. -/
  | accept (newfd add : Int) (recvBuff : RecvBuffer) (stale : UInt32)
  | input (i : Nat) (a : Arrival)
  | output (i : Nat) (soError : Int) (envs : List SendEnv)
  | tick (i : Nat) (envs : List SendEnv)
  | stat (i : Nat) (now : UInt32)
  /-- The loop ends, and a server stops listening. -/
  | stop

/-- A connection that `nwc_server_accept` has set up. -/
def acceptedPeer (w : World) (newfd add : Int) (recvBuff : RecvBuffer) (stale : UInt32) : Peer where
  session :=
    Session.opened (nwcConnectionInit .server w.bandwidth recvBuff stale)
      (nwcTcpHandlerAccept (nwcTcpHandlerInit true) newfd add w.peers.length)
  workers := false

/-- `accept` gave the descriptor `newfd`, or `-1`. -/
def World.accept (w : World) (newfd add : Int) (recvBuff : RecvBuffer) (stale : UInt32) : World :=
  let trace := acceptTrace w.peers.length newfd (connOf (w.links.prev connHdr))
  if newfd = -1 then { w with log := w.log ++ trace }
  else
    { w with
      peers := w.peers ++ [acceptedPeer w newfd add recvBuff stale]
      links := listAddTail w.links (connEntry w.peers.length) connHdr
      log := w.log ++ trace }

/-- Connection `i` has had its turn. -/
def World.take (w : World) (i : Nat) (t : Turn) : World :=
  { w with
    peers := w.peers.set i t.peer
    log := w.log ++ t.trace
    status := if t.stuck then .stuck else .running }

/-- `nwc_server_stop`; a client leaves everything as it is. -/
def World.stop (w : World) : World :=
  { w with
    log :=
      match w.mode with
      | .server => w.log ++ ioCloseTrace .listener .listen
      | .client => w.log
    status := .stopped }

def worldStep (w : World) (ev : WorldEvent) : Option World :=
  if w.status ≠ .running then none
  else
    match ev with
    | .accept newfd add recvBuff stale =>
      match w.mode with
      | .server => some (w.accept newfd add recvBuff stale)
      | .client => none
    | .input i a =>
      match w.peers[i]? with
      | some p =>
        if p.session.io.armed = true ∧ a.Fits p.session.conn then
          some (w.take i (inputTurn i p a))
        else none
      | none => none
    | .output i soError envs =>
      match w.peers[i]? with
      | some p => if p.session.io.armed then some (w.take i (outputTurn i p soError envs)) else none
      | none => none
    | .tick i envs =>
      match w.peers[i]? with
      | some p => if p.workers then some (w.take i (tickTurn i p envs)) else none
      | none => none
    | .stat i now =>
      match w.peers[i]? with
      | some p => if p.workers then some (w.take i (statTurn i p now)) else none
      | none => none
    | .stop => some w.stop

/-! ## Start -/

/-- A server behind `nwc_server_start`. Before `INIT_LIST_HEAD` the links are what they are. -/
def World.server (bandwidth : Int) (links : Links Nat) : World where
  mode := .server
  bandwidth := bandwidth
  peers := []
  links := initListHead links connHdr
  log :=
    ioCreateTrace .listener
      ++ [.read .listener .vtable, .write .listener .vtable, .write .listener .fd,
        .write .listener .state, .read .listener .looper, .write .listener .hHandle,
        .read .listener .looper, .read .listener .hHandle]
  status := .running

/-- A client behind `nwc_client_start`, where `nwc_sock_connect` answered `rc` with `fd`. -/
def World.client (bandwidth : Int) (recvBuff : RecvBuffer) (stale : UInt32) (rc fd add : Int)
    (links : Links Nat) : World :=
  let r := nwcTcpHandlerConnect (nwcTcpHandlerInit true) rc fd add 0
  { mode := .client
    bandwidth := bandwidth
    peers :=
      [{ session := Session.opened (nwcConnectionInit .client bandwidth recvBuff stale) r.2
         workers := r.1 = 0 }]
    links := links
    log :=
      connInitTrace 0 ++ ioCreateTrace (.io 0)
        ++ [.write (.conn 0) .handle, .read (.conn 0) .handle, .read (.io 0) .vtable]
        ++ (if r.1 = 0 ∨ r.1 = -EINPROGRESS then .write (.io 0) .state :: attachTrace (.io 0)
            else [])
        ++ (if r.1 = 0 then onConnectTrace 0 else [])
    status := if r.1 = 0 ∨ r.1 = -EINPROGRESS then .running else .stopped }

/-- The ways in which a process starts. -/
inductive Starts : World → Prop where
  | server (bandwidth : Int) (links : Links Nat) : Starts (World.server bandwidth links)
  | client (bandwidth : Int) (recvBuff : RecvBuffer) (stale : UInt32) (rc fd add : Int)
      (links : Links Nat) : Starts (World.client bandwidth recvBuff stale rc fd add links)

end Nwchecker
