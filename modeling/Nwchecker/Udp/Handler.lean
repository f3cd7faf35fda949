import Nwchecker.Epoll.Entry
import Nwchecker.Types

/-!
# The UDP io handler

`nwc_udp_handler.c` over one handler, in the manner of `Nwchecker/Tcp/Handler.lean`. A datagram
goes through in one piece: what `recvfrom` was not asked for is thrown away.

Unlike its TCP sibling, a send that would block leaves `can_send` set.
-/

namespace Nwchecker

/-- `UDP_SERVER` and `UDP_CLIENT`. -/
inductive UdpType where
  | server
  | client
  deriving DecidableEq, Repr

/-- `struct nwc_udp_handler` with its parent. `type` is not set before `listen` or `connect`. -/
structure NwcUdpHandler where
  type : Option UdpType
  fd : Int
  hHandle : Option EpollEntry
  canSend : Bool
  ioop : Bool
  handleOutput : Bool
  deriving DecidableEq, Repr

/-- `nwc_udp_handler_init`, and `ioop` as the creator sets it. -/
def nwcUdpHandlerInit (ioop : Bool) : NwcUdpHandler where
  type := none
  fd := -1
  hHandle := none
  canSend := true
  ioop := ioop
  handleOutput := true

/-- `nwc_looper_register_event(looper, h_handle, events)` -/
def NwcUdpHandler.registerEvent (h : NwcUdpHandler) (events : EventMask) : NwcUdpHandler :=
  { h with hHandle := h.hHandle.map (nwcEpollRegisterEvent · events) }

/-- `nwc_looper_cancel_event(looper, h_handle, events)` -/
def NwcUdpHandler.cancelEvent (h : NwcUdpHandler) (events : EventMask) : NwcUdpHandler :=
  { h with hHandle := h.hHandle.map (nwcEpollCancelEvent · events) }

/-- `nwc_looper_remove_handler(looper, h_handle)` -/
def NwcUdpHandler.removeHandler (h : NwcUdpHandler) : NwcUdpHandler :=
  { h with hHandle := h.hHandle.map nwcEpollRemoveHandler }

/-! ## Set-up and close -/

/--
`nwc_udp_handler_listen` after `nwc_sock_listen` answered `fd`. `add` answers the `epoll_ctl` of
`nwc_looper_add_handler`, and `eh` names the handler.
-/
def nwcUdpHandlerListen (h : NwcUdpHandler) (fd add : Int) (eh : Nat) : Int × NwcUdpHandler :=
  if fd = -1 then (-1, h)
  else
    (0,
      { NwcUdpHandler.registerEvent
          { h with handleOutput := false, fd := fd, hHandle := nwcEpollAddHandler fd eh add }
          EM_READ
        with type := some .server })

/-- `nwc_udp_handler_connect` after `nwc_sock_connect` answered `rc` with the socket `fd`. -/
def nwcUdpHandlerConnect (h : NwcUdpHandler) (rc fd add : Int) (eh : Nat) : Int × NwcUdpHandler :=
  if rc ≠ 0 then (rc, h)
  else
    (rc,
      { NwcUdpHandler.registerEvent { h with fd := fd, hHandle := nwcEpollAddHandler fd eh add }
          EM_READ
        with type := some .client })

/-- `nwc_udp_handler_close`. -/
def nwcUdpHandlerClose (h : NwcUdpHandler) : NwcUdpHandler :=
  { (h.cancelEvent EM_ALL).removeHandler with fd := -1 }

/-! ## Transfer -/

/--
`nwc_udp_handler_recvfrom`: the result and the bytes put into the buffer. The answer of the system
is a whole datagram, of which `buflen` bytes are kept.
-/
def nwcUdpHandlerRecvfrom (buflen : Nat) : SysCall (List UInt8) → Int × List UInt8
  | .interrupted retry => nwcUdpHandlerRecvfrom buflen retry
  | .failed errno => if errno = EAGAIN ∨ errno = EWOULDBLOCK then (-EAGAIN, []) else (-1, [])
  | .done datagram => ((datagram.take buflen).length, datagram.take buflen)

/-- `nwc_udp_handler_recv` -/
def nwcUdpHandlerRecv (buflen : Nat) (call : SysCall (List UInt8)) : Int × List UInt8 :=
  nwcUdpHandlerRecvfrom buflen call

/-- `nwc_udp_handler_sendto`. The handler stays as it is. -/
def nwcUdpHandlerSendto : SysCall Nat → Int
  | .interrupted retry => nwcUdpHandlerSendto retry
  | .failed errno => if errno = EAGAIN ∨ errno = EWOULDBLOCK then -EAGAIN else -1
  | .done bytes => bytes

/-- `nwc_udp_handler_send` -/
def nwcUdpHandlerSend (call : SysCall Nat) : Int := nwcUdpHandlerSendto call

/-! ## Events -/

/-- The members of `struct nwc_io_operation` that a UDP handler calls. -/
inductive UdpCallback where
  | onAccept
  | onRecv
  | onSend
  deriving DecidableEq, Repr

/-- `nwc_udp_handle_input` -/
def nwcUdpHandleInput (h : NwcUdpHandler) : Option UdpCallback :=
  match h.type with
  | some .server => if h.ioop then some .onAccept else none
  | _ => if h.ioop then some .onRecv else none

/-- `nwc_udp_handle_output` -/
def nwcUdpHandleOutput (h : NwcUdpHandler) : NwcUdpHandler × Option UdpCallback :=
  ({ h.cancelEvent EM_WRITE with canSend := true }, if h.ioop then some .onSend else none)

/-- What a receive comes to, by the last answer of the system. -/
theorem nwcUdpHandlerRecv_final (buflen : Nat) : ∀ call : SysCall (List UInt8),
    (∃ datagram, call.final = .ok datagram ∧ nwcUdpHandlerRecv buflen call
      = (((datagram.take buflen).length : Int), datagram.take buflen)) ∨
    (∃ errno, call.final = .error errno ∧
      ((errno = EAGAIN ∧ (nwcUdpHandlerRecv buflen call).1 = -EAGAIN) ∨
        (errno ≠ EAGAIN ∧ (nwcUdpHandlerRecv buflen call).1 = -1)))
  | .interrupted retry => nwcUdpHandlerRecv_final buflen retry
  | .done datagram => Or.inl ⟨datagram, rfl, rfl⟩
  | .failed errno => by
    refine Or.inr ⟨errno, rfl, ?_⟩
    rw [nwcUdpHandlerRecv, nwcUdpHandlerRecvfrom]
    by_cases he : errno = EAGAIN
    · rw [if_pos (Or.inl he)]
      exact Or.inl ⟨he, rfl⟩
    · rw [if_neg (by rintro (h | h) <;> exact he h)]
      exact Or.inr ⟨he, rfl⟩

end Nwchecker
