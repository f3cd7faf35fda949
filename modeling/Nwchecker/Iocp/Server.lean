import Mathlib.Logic.Function.Basic
import Nwchecker.Lib.Machine
import Nwchecker.Lib.Tickets
import Nwchecker.Lib.Words

/-!
# The server on an I/O completion port

`nwcs_iocp.cpp` and `nwc_connection.c` of the exercise on Windows. Operations are posted on the
sockets of connections and end in any order; each puts a packet into the completion port, with the
connection as its key and the `nwc_io_op` as its `OVERLAPPED`. The desk holds what has been posted
and has not been dequeued.

An event is one iteration of `nwcs_run_loop`, with all that the calls in it return. A run ends where
memory would be used that has been released: what comes then is not defined.
-/

namespace Nwchecker.Iocp

open Machine Tickets Words

/-! ## Types -/

/-- `enum e_oper` -/
inductive Oper where
  | read
  | accept
  | write
  deriving DecidableEq, Repr

/-- The connections that are completion keys: `accept_conn`, and those that were allocated. -/
inductive NwcId where
  | acceptConn
  | client (i : Nat)
  deriving DecidableEq, Repr

/-- `struct nwc_connection`, without its links, its buffer and its addresses. -/
structure NwcConnection where
  /-- `socket` is not `INVALID_SOCKET`. -/
  opened : Bool
  rbytes : Nat
  pendingOps : Int
  deriving DecidableEq, Repr

/-- A call of `free_nwc_conn`, and how many operations of the connection were waiting then. -/
structure FreedConn where
  nwc : NwcId
  waiting : Nat
  deriving DecidableEq, Repr

/-- `struct nwcs_iocp`, the memory, the port, and what has been released. -/
structure NwcsIocp where
  acceptConn : NwcConnection
  clientConnHdr : List Nat
  deleteClientConnHdr : List NwcId
  /-- The connections that were allocated, and their number. -/
  client : Nat → NwcConnection
  clients : Nat
  desk : Desk NwcId Oper
  freedOps : List Nat
  freedConns : List FreedConn
  /-- The connections that were in the delete list when an operation was posted on them. -/
  latePosts : List NwcId

/-- `WSARecv` -/
inductive RecvAnswer where
  | refused
  | pending
  | done (rbytes : Nat)
  deriving DecidableEq, Repr

/-- What the calls of one iteration return, and what `malloc` finds for a new connection. -/
structure LoopAnswers where
  newsock : Bool
  acceptEx : Bool
  mem : NwcConnection
  /-- `nwcs_accept_new_sock` -/
  associates : Bool
  recv : RecvAnswer
  /-- `WSASend` succeeds or is pending. -/
  send : Bool

/-! ## Memory -/

/-- `alloc_nwc_conn_arg0`. `pending_ops` is left as it is. -/
def allocNwcConnArg0 (mem : NwcConnection) : NwcConnection :=
  { mem with
    opened := false
    rbytes := 0 }

namespace NwcsIocp

def conn (s : NwcsIocp) : NwcId → NwcConnection
  | .acceptConn => s.acceptConn
  | .client i => s.client i

def modify (s : NwcsIocp) (k : NwcId) (f : NwcConnection → NwcConnection) : NwcsIocp :=
  match k with
  | .acceptConn => { s with acceptConn := f s.acceptConn }
  | .client i => { s with client := Function.update s.client i (f (s.client i)) }

/-- `free_nwc_io_op` -/
def freeNwcIoOp (s : NwcsIocp) (id : Nat) : NwcsIocp := { s with freedOps := s.freedOps ++ [id] }

/-- `free_nwc_conn`, which closes the socket. -/
def freeNwcConn (s : NwcsIocp) (k : NwcId) : NwcsIocp :=
  { s.modify k fun c => { c with opened := false } with
    freedConns := s.freedConns ++ [{ nwc := k, waiting := s.desk.count k }] }

/-- `remove_nwc`, and `add_nwc_tail` to `delete_client_conn_hdr`. -/
def moveToDelete (s : NwcsIocp) (k : NwcId) : NwcsIocp :=
  { s with
    clientConnHdr := s.clientConnHdr.filter fun i => NwcId.client i ≠ k
    deleteClientConnHdr := (s.deleteClientConnHdr.filter fun x => x ≠ k) ++ [k] }

/-! ## Requests -/

/-- An operation is posted: the call succeeded at once or is pending. -/
def post (s : NwcsIocp) (k : NwcId) (op : Oper) : NwcsIocp :=
  { s with
    desk := s.desk.post k op
    latePosts := if k ∈ s.deleteClientConnHdr then s.latePosts ++ [k] else s.latePosts }

/-- An operation is refused, and its `nwc_io_op` freed. -/
def refuse (s : NwcsIocp) : NwcsIocp :=
  { s with
    desk := s.desk.refuse
    freedOps := s.freedOps ++ [s.desk.next] }

/-- `nwc->pending_ops++` -/
def countUp (s : NwcsIocp) (k : NwcId) : NwcsIocp :=
  s.modify k fun c => { c with pendingOps := int32 (c.pendingOps + 1) }

/-- `nwc->pending_ops--` -/
def countDown (s : NwcsIocp) (k : NwcId) : NwcsIocp :=
  s.modify k fun c => { c with pendingOps := int32 (c.pendingOps - 1) }

/-- `nwcs_accept_request`, whose result nobody looks at. `AcceptEx` takes an open socket only. -/
def nwcsAcceptRequest (s : NwcsIocp) (a : LoopAnswers) : NwcsIocp :=
  if a.newsock then
    if a.acceptEx && s.acceptConn.opened then s.post .acceptConn .accept else s.refuse
  else s

/-- `nwcs_read_request`, and whether it returns 0. -/
def nwcsReadRequest (s : NwcsIocp) (k : NwcId) (recv : RecvAnswer) : Bool × NwcsIocp :=
  match recv with
  | .refused => (false, s.refuse)
  -- the call has succeeded, and its packet will come
  | .done 0 => (false, (s.post k .read).freeNwcIoOp s.desk.next)
  | .done (_ + 1) => (true, (s.post k .read).countUp k)
  | .pending => (true, (s.post k .read).countUp k)

/-- `nwcs_write_request`, and whether it returns 0. -/
def nwcsWriteRequest (s : NwcsIocp) (k : NwcId) (send : Bool) : Bool × NwcsIocp :=
  if send then (true, (s.post k .write).countUp k) else (false, s.refuse)

/-! ## The loop -/

/-- `alloc_nwc_conn_arg0`, with the socket of the accept. -/
def newClient (s : NwcsIocp) (mem : NwcConnection) : NwcsIocp :=
  { s with
    client := Function.update s.client s.clients { allocNwcConnArg0 mem with opened := true }
    clients := s.clients + 1 }

/-- The branch `OP_ACCEPT`, behind `nwcs_accept_request`. -/
def connect (s : NwcsIocp) (a : LoopAnswers) : NwcsIocp :=
  let k := NwcId.client s.clients
  if a.associates then
    match (s.newClient a.mem).nwcsReadRequest k a.recv with
    | (true, t) => { t with clientConnHdr := t.clientConnHdr ++ [s.clients] }
    | (false, t) => t.freeNwcConn k
  else (s.newClient a.mem).freeNwcConn k

/-- The branch `OP_READ`. -/
def reply (s : NwcsIocp) (k : NwcId) (a : LoopAnswers) : NwcsIocp :=
  match s.nwcsWriteRequest k a.send with
  | (true, t) =>
    match t.nwcsReadRequest k a.recv with
    | (true, u) => u
    | (false, u) => u.moveToDelete k
  | (false, t) => t.moveToDelete k

/-- `nwcs_iocp_process_message` -/
def nwcsIocpProcessMessage (s : NwcsIocp) (k : NwcId) (op : Oper) (a : LoopAnswers) : NwcsIocp :=
  match op with
  | .accept => (s.nwcsAcceptRequest a).connect a
  | .read => s.reply k a
  | .write => s

/-- What the end of the loop frees. -/
def unused (s : NwcsIocp) (k : NwcId) : Bool := (s.conn k).pendingOps ≤ 0

/-- The `for` loop over `delete_client_conn_hdr`. -/
def sweep (s : NwcsIocp) : NwcsIocp :=
  (s.deleteClientConnHdr.filter s.unused).foldl freeNwcConn
    { s with deleteClientConnHdr := s.deleteClientConnHdr.filter fun k => !s.unused k }

/-- The packet of an operation that succeeded. -/
def completed (s : NwcsIocp) (t : Ticket NwcId Oper) (rbytes : Nat) (a : LoopAnswers) : NwcsIocp :=
  let s := { s with desk := s.desk.settle t }.modify t.owner fun c => { c with rbytes := rbytes }
  (((s.nwcsIocpProcessMessage t.owner t.op a).freeNwcIoOp t.id).countDown t.owner).sweep

/-- The packet of an operation that failed. -/
def failed (s : NwcsIocp) (t : Ticket NwcId Oper) : NwcsIocp :=
  ({ s with desk := s.desk.settle t }.freeNwcIoOp t.id).moveToDelete t.owner

/-! ## The machine -/

inductive Event where
  /-- `GetQueuedCompletionStatus` returns a packet. -/
  | completion (t : Ticket NwcId Oper) (ok : Bool) (rbytes : Nat) (answers : LoopAnswers)
  /-- It fails and returns none. -/
  | nothing

/-- The connection and the `nwc_io_op` of a packet have not been released. -/
def alive (s : NwcsIocp) (t : Ticket NwcId Oper) : Bool :=
  t.id ∉ s.freedOps && t.owner ∉ s.freedConns.map FreedConn.nwc

def step (s : NwcsIocp) : Event → Option NwcsIocp
  | .completion t ok rbytes a =>
    if t ∈ s.desk.waiting ∧ s.alive t = true then
      some (if ok then s.completed t rbytes a else s.failed t)
    else none
  | .nothing => some s

/-- `accept_conn` listens, and nothing has been posted. -/
def listening : NwcsIocp where
  acceptConn := { opened := true, rbytes := 0, pendingOps := 0 }
  clientConnHdr := []
  deleteClientConnHdr := []
  client := fun _ => { opened := false, rbytes := 0, pendingOps := 0 }
  clients := 0
  desk := Desk.empty
  freedOps := []
  freedConns := []
  latePosts := []

/-- `nwcs_iocp_open`, where it returns 0. -/
def nwcsIocpOpen (a : LoopAnswers) : NwcsIocp := listening.nwcsAcceptRequest a

/-- All calls succeed or are pending, and the memory is clear. -/
def allWell : LoopAnswers where
  newsock := true
  acceptEx := true
  mem := { opened := false, rbytes := 0, pendingOps := 0 }
  associates := true
  recv := .pending
  send := true

/-- The accept that `nwcs_iocp_open` posts. -/
def firstAccept : Ticket NwcId Oper where
  id := 0
  owner := .acceptConn
  op := .accept

/-- A client connects. -/
def clientConnects : Event := .completion firstAccept true 0 allWell

/-- The read that is posted for it then. -/
def firstRead : Ticket NwcId Oper where
  id := 2
  owner := .client 0
  op := .read

/-! ## What a change of one connection leaves alone -/

section
variable (s : NwcsIocp) (k : NwcId) (f : NwcConnection → NwcConnection)

@[simp] theorem modify_desk : (s.modify k f).desk = s.desk := by
  cases k <;> rfl

@[simp] theorem modify_clients : (s.modify k f).clients = s.clients := by
  cases k <;> rfl

@[simp] theorem modify_clientConnHdr : (s.modify k f).clientConnHdr = s.clientConnHdr := by
  cases k <;> rfl

@[simp] theorem modify_deleteClientConnHdr :
    (s.modify k f).deleteClientConnHdr = s.deleteClientConnHdr := by
  cases k <;> rfl

@[simp] theorem modify_freedOps : (s.modify k f).freedOps = s.freedOps := by
  cases k <;> rfl

@[simp] theorem modify_freedConns : (s.modify k f).freedConns = s.freedConns := by
  cases k <;> rfl

@[simp] theorem modify_latePosts : (s.modify k f).latePosts = s.latePosts := by
  cases k <;> rfl

@[simp] theorem modify_client_acceptConn (i : Nat) :
    (s.modify (.client i) f).acceptConn = s.acceptConn := rfl

@[simp] theorem modify_acceptConn_client : (s.modify .acceptConn f).client = s.client := rfl

theorem modify_client_client (i j : Nat) :
    (s.modify (.client i) f).client j = if j = i then f (s.client i) else s.client j := by
  simp [modify, Function.update_apply]

end

end NwcsIocp

end Nwchecker.Iocp
