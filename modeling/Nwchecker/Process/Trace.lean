import Nwchecker.Lib.Lifetime
import Nwchecker.Connection.Send

/-!
# What the callbacks touch

The fields of `struct nwc_connection` and of `struct nwc_io_handler` that each function reads and
writes, in the order of the source, and what it releases. The functions themselves are modelled
elsewhere; a trace follows the same branches.

The connection `i` has the io handler `i`. The looper, its entries and its workers are objects of
their own and are not traced here.
-/

namespace Nwchecker

open Words Loop Lifetime

/-- The objects whose lifetime matters. -/
inductive Obj where
  | listener
  | conn (i : Nat)
  | io (i : Nat)
  deriving DecidableEq, Repr

/-- The fields, those of a connection first. `vtable` stands for the function pointers. -/
inductive Field where
  | op
  | connEntry
  | qos
  | handle
  | recvBuff
  | rbytes
  | cfg
  | statWkHandle
  | sendWkHandle
  | vtable
  | looper
  | fd
  | hHandle
  | ioop
  | canSend
  | state
  deriving DecidableEq, Repr

/-- A list of accesses in the order in which they happen. -/
abbrev Trace := List (Access Obj Field)

/-! ## Closing -/

/-- `nwc_io_close`: the handler's own `close`, and `free`. -/
def ioCloseTrace (io : Obj) (state : NwcTcpState) : Trace :=
  [.read io .vtable, .read io .state, .read io .state]
    ++ (if state = .closed then []
        else
          [.write io .state, .read io .looper, .read io .hHandle, .read io .looper,
            .read io .hHandle, .read io .fd, .write io .fd])
    ++ [.release io]

/-- `nwc_connection_close`: the looper of the handler is asked for after the handler is gone. -/
def closeTrace (i : Nat) (state : NwcTcpState) : Trace :=
  .read (.conn i) .handle :: ioCloseTrace (.io i) state
    ++ [.read (.conn i) .handle, .read (.io i) .looper, .read (.conn i) .statWkHandle,
      .read (.conn i) .handle, .read (.io i) .looper, .read (.conn i) .sendWkHandle,
      .release (.conn i)]

/-! ## Receiving -/

/-- `nwc_tcp_handler_recv`. The message about a failure prints `fd`. -/
def recvAttempts (i : Nat) : SysCall (List UInt8) → Trace
  | .interrupted retry => .read (.io i) .fd :: recvAttempts i retry
  | .failed errno =>
    .read (.io i) .fd
      :: (if errno = EAGAIN ∨ errno = EWOULDBLOCK then [] else [.read (.io i) .fd])
  | .done [] => [.read (.io i) .fd, .read (.io i) .fd]
  | .done (_ :: _) => [.read (.io i) .fd, .write (.conn i) .recvBuff]

/-- `nwc_tcp_handler_send`. Every `-1` prints `fd`. -/
def sendAttempts (i : Nat) : SysCall Nat → Trace
  | .interrupted retry => .read (.io i) .fd :: .read (.io i) .fd :: sendAttempts i retry
  | .failed errno =>
    [.read (.io i) .fd, .read (.io i) .fd]
      ++ (if errno = EAGAIN ∨ errno = EWOULDBLOCK then [.write (.io i) .canSend]
          else [.read (.io i) .fd])
  | .done _ => [.read (.io i) .fd]

/-- `nwc_io_send(nwc->handle, ..)` -/
def ioSendTrace (i : Nat) (call : SysCall Nat) : Trace :=
  .read (.conn i) .handle :: .read (.io i) .vtable :: sendAttempts i call

/-- `nwc_qos_process_package` looks at `qos` when the package is an ack. -/
def processTrace (i : Nat) (qos : NwcQosProtocol) (pkg : NwcQosHdr) : Trace :=
  .read (.conn i) .recvBuff
    :: (if pkg.ackTimestamp = 0 then []
        else
          match nwcQosGetPkgEntry qos.sentQueue pkg.ackTimestamp with
          | none => [.read (.conn i) .qos]
          | some _ => [.read (.conn i) .qos, .read (.conn i) .recvBuff, .write (.conn i) .qos])

/-- Behind the parse loop: the rest of the bytes moves to the front. -/
def leftoverTrace (i : Nat) (rbytes : Int) : Trace :=
  if 0 < rbytes then
    [.read (.conn i) .recvBuff, .write (.conn i) .recvBuff, .write (.conn i) .rbytes]
  else [.write (.conn i) .rbytes]

/-- One pass of the parse loop, and what follows the loop when the pass leaves it. -/
def passTrace (i : Nat) (env : PassEnv) (p : ParseState) : Trace :=
  if u32 p.rbytes < qosHdrLen then leftoverTrace i p.rbytes
  else
    match p.session.conn.recvBuff.hdrAt p.pkgPtr with
    | none => []
    | some pkg =>
      .read (.conn i) .recvBuff
        :: (if u32 p.rbytes < pkgTotal pkg then leftoverTrace i p.rbytes
            else
              .read (.conn i) .cfg
                :: (match p.session.conn.mode with
                    | .server =>
                      [.read (.conn i) .handle, .read (.io i) .canSend]
                        ++ (if !p.session.io.canSend then []
                            else
                              .read (.conn i) .recvBuff :: ioSendTrace i env.call
                                ++ (if nwcTcpHandlerSendRc env.call ≤ 0
                                      ∧ nwcTcpHandlerSendRc env.call ≠ -EAGAIN then
                                    closeTrace i p.session.io.state ++ leftoverTrace i p.rbytes
                                  else [.read (.conn i) .recvBuff]))
                    | .client =>
                      processTrace i p.session.conn.qos pkg ++ [.read (.conn i) .recvBuff]))

/-- `nwc_connection_on_recv` -/
def onRecvTrace (i : Nat) (s : Session) (a : Arrival) : Trace :=
  let r := nwcTcpHandlerRecv a.call
  [.read (.conn i) .handle, .read (.conn i) .rbytes, .read (.conn i) .rbytes, .read (.io i) .vtable]
    ++ recvAttempts i a.call
    ++ (if r.1 ≤ 0 then if r.1 = -EAGAIN then [] else closeTrace i s.io.state
        else
          .read (.conn i) .rbytes
            :: written (parsePass a.recvTs) (passTrace i) a.env (parseEntry s r.2))

/-! ## Sending -/

/-- One pass of the send loop. -/
def sendPassTrace (i : Nat) (env : SendEnv) (p : SendState) : Trace :=
  .read (.conn i) .qos
    :: (if p.cur < p.session.conn.qos.sendBandwidth then
          .write (.conn i) .qos :: ioSendTrace i env.call
            ++ (if nwcTcpHandlerSendRc env.call ≤ 0 ∧ nwcTcpHandlerSendRc env.call ≠ -EAGAIN then
                closeTrace i p.session.io.state
              else [])
        else [])

/-- `nwc_connection_on_send` -/
def onSendTrace (i : Nat) (s : Session) (envs : List SendEnv) : Trace :=
  [.read (.conn i) .handle, .read (.io i) .canSend]
    ++ (if s.io.canSend then
          .read (.conn i) .cfg
            :: (match s.conn.mode with
                | .client =>
                  written sendPass (sendPassTrace i) envs { session := s, cur := 0, rc := 0 }
                | .server => [])
        else [])

/-! ## Events -/

/-- `handler->ioop->callback(handler->ioop->userdata)` -/
def callTrace (i : Nat) : Trace :=
  [.read (.io i) .ioop, .read (.conn i) .op, .read (.io i) .ioop, .read (.conn i) .op]

/-- `entry->eh->handle_input(entry->eh)` up to the callback. -/
def handleInputTrace (i : Nat) : Trace :=
  [.read (.io i) .vtable, .read (.io i) .state, .read (.io i) .ioop]

/-- `entry->eh->handle_output(entry->eh)` up to the callback. -/
def handleOutputTrace (i : Nat) (io : NwcTcpHandler) (soError : Int) : Trace :=
  [.read (.io i) .vtable, .read (.io i) .looper, .read (.io i) .hHandle, .read (.io i) .state]
    ++ (if io.state = .connecting then
          .read (.io i) .fd
            :: (if soError ≠ 0 ∧ soError ∈ connectErrors then []
                else [.write (.io i) .state, .read (.io i) .ioop])
        else [.write (.io i) .canSend, .read (.io i) .ioop])

/-- `nwc_connection_on_connect`, that is `nwc_connection_send`. -/
def onConnectTrace (i : Nat) : Trace :=
  [.read (.conn i) .handle, .read (.io i) .looper, .write (.conn i) .statWkHandle,
    .read (.conn i) .handle, .read (.io i) .looper, .write (.conn i) .sendWkHandle]

/-! ## Set-up -/

/-- `nwc_io_create`. -/
def ioCreateTrace (io : Obj) : Trace :=
  [.write io .vtable, .write io .looper, .write io .fd, .write io .hHandle, .write io .ioop,
    .write io .canSend, .write io .vtable, .write io .state, .write io .ioop, .write io .looper]

/-- `nwc_connection_init`. -/
def connInitTrace (i : Nat) : Trace :=
  [.write (.conn i) .op, .write (.conn i) .qos, .write (.conn i) .op, .write (.conn i) .handle,
    .write (.conn i) .rbytes, .write (.conn i) .cfg, .write (.conn i) .statWkHandle,
    .write (.conn i) .sendWkHandle, .read (.conn i) .cfg]

/-- A handler gets its descriptor and goes to the looper. -/
def attachTrace (io : Obj) : Trace :=
  [.write io .fd, .read io .looper, .write io .hHandle, .read io .looper, .read io .hHandle]

/--
`nwc_tcp_handle_input` of the listener, up to the accepted descriptor, and from there to the end
for the new connection `i`. `last` is the last node of `conn_hdr`, whose `next` is written.
-/
def acceptTrace (i : Nat) (newfd : Int) (last : Option Nat) : Trace :=
  [.read .listener .vtable, .read .listener .state, .read .listener .fd]
    ++ (if newfd = -1 then []
        else
          .read .listener .ioop :: ioCreateTrace (.io i)
            ++ [.read .listener .ioop, .read .listener .ioop] ++ connInitTrace i
            ++ [.write (.conn i) .handle, .write (.conn i) .connEntry]
            ++ (match last with
                | some j => [.write (.conn j) .connEntry]
                | none => [])
            ++ [.write (.io i) .ioop, .read .listener .looper, .write (.io i) .looper]
            ++ attachTrace (.io i) ++ [.write (.io i) .state])

end Nwchecker
