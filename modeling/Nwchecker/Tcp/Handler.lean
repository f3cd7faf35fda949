import Nwchecker.Epoll.Entry
import Nwchecker.Types

/-!
# The TCP io handler

`nwc_tcp_handler.c` over one handler. The system calls are outside: their answers are
parameters. The looper's table is seen through the one entry that `h_handle` points at.

`handle_input` and `handle_output` end with a call through `handler->ioop`. They return which
callback that is, and whoever models the callbacks runs it on the returned handler.
-/

namespace Nwchecker

/-- `enum NWC_TCP_STATE`. -/
inductive NwcTcpState where
  | closed
  | listen
  | connecting
  | established
  deriving DecidableEq, Repr

/-- `struct nwc_tcp_handler` with its parent. `hHandle = none` is `INVALID_HANDLE`. -/
structure NwcTcpHandler where
  state : NwcTcpState
  fd : Int
  hHandle : Option EpollEntry
  canSend : Bool
  ioop : Bool
  deriving DecidableEq, Repr

/-- `nwc_tcp_handler_init`, and `ioop` as the creator sets it. -/
def nwcTcpHandlerInit (ioop : Bool) : NwcTcpHandler where
  state := .closed
  fd := -1
  hHandle := none
  canSend := true
  ioop := ioop

/-! ## Calls into the looper

Each of them does nothing on `INVALID_HANDLE`.
-/

/-- `nwc_looper_register_event(looper, h_handle, events)` -/
def NwcTcpHandler.registerEvent (h : NwcTcpHandler) (events : EventMask) : NwcTcpHandler :=
  { h with hHandle := h.hHandle.map (nwcEpollRegisterEvent · events) }

/-- `nwc_looper_cancel_event(looper, h_handle, events)` -/
def NwcTcpHandler.cancelEvent (h : NwcTcpHandler) (events : EventMask) : NwcTcpHandler :=
  { h with hHandle := h.hHandle.map (nwcEpollCancelEvent · events) }

/-- `nwc_looper_remove_handler(looper, h_handle)` -/
def NwcTcpHandler.removeHandler (h : NwcTcpHandler) : NwcTcpHandler :=
  { h with hHandle := h.hHandle.map nwcEpollRemoveHandler }

/-- The looper calls into the handler: its entry is there and not removed. -/
def NwcTcpHandler.armed (h : NwcTcpHandler) : Bool :=
  match h.hHandle with
  | some e => e.armed
  | none => false

/-! ## Set-up and close -/

/--
`nwc_tcp_handler_listen` after `nwc_sock_listen` answered `fd`. `handle_output`, which it clears, is
called for `EM_WRITE` only.
-/
def nwcTcpHandlerListen (h : NwcTcpHandler) (fd add : Int) (eh : Nat) : Int × NwcTcpHandler :=
  if fd = -1 then (-1, h)
  else
    (0,
      NwcTcpHandler.registerEvent
        { h with fd := fd, state := .listen, hHandle := nwcEpollAddHandler fd eh add } EM_READ)

/--
`nwc_tcp_handler_connect` after `nwc_sock_connect` answered `rc` with the socket `fd`.
`add` answers the `epoll_ctl` of `nwc_looper_add_handler`, and `eh` names the handler.
-/
def nwcTcpHandlerConnect (h : NwcTcpHandler) (rc fd add : Int) (eh : Nat) : Int × NwcTcpHandler :=
  let attach (h : NwcTcpHandler) (events : EventMask) : NwcTcpHandler :=
    NwcTcpHandler.registerEvent { h with fd := fd, hHandle := nwcEpollAddHandler fd eh add } events
  if rc = 0 then (0, attach { h with state := .established } EM_READ)
  -- `nwc_sock_connect` answers `errno`, the function itself its negation
  else if rc = EINPROGRESS ∨ rc = EWOULDBLOCK then
    (-EINPROGRESS, attach { h with state := .connecting } (EM_READ.add EM_WRITE))
  else (rc, h)

/-- `nwc_tcp_handler_accept`. -/
def nwcTcpHandlerAccept (h : NwcTcpHandler) (fd add : Int) (eh : Nat) : NwcTcpHandler :=
  { NwcTcpHandler.registerEvent { h with fd := fd, hHandle := nwcEpollAddHandler fd eh add } EM_READ
    with state := .established }

/-- `nwc_tcp_handler_close`. -/
def nwcTcpHandlerClose (h : NwcTcpHandler) : NwcTcpHandler :=
  if h.state = .closed then h
  else
    { ({ h with state := .closed }.cancelEvent EM_ALL).removeHandler with fd := -1 }

/-! ## Transfer -/

/-- `nwc_tcp_handler_recv`: the result and the bytes put into the buffer. -/
def nwcTcpHandlerRecv : SysCall (List UInt8) → Int × List UInt8
  | .interrupted retry => nwcTcpHandlerRecv retry
  | .failed errno =>
    if errno = EAGAIN ∨ errno = EWOULDBLOCK then (-EAGAIN, [])
    else if errno = ECONNREFUSED then (-ECONNREFUSED, [])
    else (-1, [])
  | .done bytes => (bytes.length, bytes)

/-- The result of `nwc_tcp_handler_send`. -/
def nwcTcpHandlerSendRc : SysCall Nat → Int
  | .interrupted retry => nwcTcpHandlerSendRc retry
  | .failed errno => if errno = EAGAIN ∨ errno = EWOULDBLOCK then -EAGAIN else -1
  | .done bytes => bytes

/-- `nwc_tcp_handler_send`: a full socket buffer clears `can_send`. -/
def nwcTcpHandlerSend (h : NwcTcpHandler) : SysCall Nat → Int × NwcTcpHandler
  | .interrupted retry => nwcTcpHandlerSend h retry
  | .failed errno =>
    if errno = EAGAIN ∨ errno = EWOULDBLOCK then (-EAGAIN, { h with canSend := false })
    else (-1, h)
  | .done bytes => (bytes, h)

/-! ## Events -/

/-- The members of `struct nwc_io_operation` that an established or connecting handler calls. -/
inductive IoCallback where
  | onConnect
  | onRecv
  | onSend
  deriving DecidableEq, Repr

/-- The `SO_ERROR` values that `nwc_tcp_handle_output` takes for a failed connect. -/
def connectErrors : List Int :=
  [ECONNREFUSED, ECONNRESET, ETIMEDOUT, EHOSTUNREACH, ENETUNREACH, ENETDOWN, EINVAL]

/-- `nwc_tcp_handle_input` of a handler that is not listening. -/
def nwcTcpHandleInput (h : NwcTcpHandler) : Option IoCallback :=
  if h.ioop then some .onRecv else none

/-- `nwc_tcp_handle_output`. `soError` is the value `getsockopt` stores in `err`. -/
def nwcTcpHandleOutput (h : NwcTcpHandler) (soError : Int) : NwcTcpHandler × Option IoCallback :=
  let h := h.cancelEvent EM_WRITE
  if h.state = .connecting then
    if soError ≠ 0 ∧ soError ∈ connectErrors then (h, none)
    else
      -- any other value counts as a connection
      ({ h with state := .established }, if h.ioop then some .onConnect else none)
  else ({ h with canSend := true }, if h.ioop then some .onSend else none)

/-! ## What each function leaves alone -/

/-- The looper calls only change the entry. -/
@[simp] theorem registerEvent_state (h : NwcTcpHandler) (m : EventMask) :
    (h.registerEvent m).state = h.state := rfl

@[simp] theorem registerEvent_ioop (h : NwcTcpHandler) (m : EventMask) :
    (h.registerEvent m).ioop = h.ioop := rfl

@[simp] theorem cancelEvent_state (h : NwcTcpHandler) (m : EventMask) :
    (h.cancelEvent m).state = h.state := rfl

@[simp] theorem cancelEvent_ioop (h : NwcTcpHandler) (m : EventMask) :
    (h.cancelEvent m).ioop = h.ioop := rfl

/-- The result of a send, and the only thing it changes in the handler. -/
theorem nwcTcpHandlerSend_eq (h : NwcTcpHandler) : ∀ call : SysCall Nat,
    nwcTcpHandlerSend h call
      = (nwcTcpHandlerSendRc call,
          { h with canSend := h.canSend && nwcTcpHandlerSendRc call != -EAGAIN })
  | .interrupted retry => by
    rw [nwcTcpHandlerSend, nwcTcpHandlerSendRc]
    exact nwcTcpHandlerSend_eq h retry
  | .failed errno => by
    rw [nwcTcpHandlerSend, nwcTcpHandlerSendRc]
    by_cases he : errno = EAGAIN ∨ errno = EWOULDBLOCK
    · rw [if_pos he, if_pos he]
      simp
    · rw [if_neg he, if_neg he]
      simp [EAGAIN]
  | .done n => by
    have hn : ((n : Int) != -EAGAIN) = true := by
      simp only [bne_iff_ne, ne_eq, EAGAIN]
      omega
    rw [nwcTcpHandlerSend, nwcTcpHandlerSendRc, hn, Bool.and_true]

theorem nwcTcpHandlerClose_state (h : NwcTcpHandler) : (nwcTcpHandlerClose h).state = .closed := by
  unfold nwcTcpHandlerClose
  split
  · next hs => exact hs
  · rfl

/-- A second close does nothing: the looper is asked to remove an entry once. -/
theorem nwcTcpHandlerClose_again (h : NwcTcpHandler) :
    nwcTcpHandlerClose (nwcTcpHandlerClose h) = nwcTcpHandlerClose h := by
  have hs := nwcTcpHandlerClose_state h
  rw [nwcTcpHandlerClose.eq_def (nwcTcpHandlerClose h), if_pos hs]

theorem nwcTcpHandlerClose_armed (h : NwcTcpHandler) (hs : h.state ≠ .closed) :
    (nwcTcpHandlerClose h).armed = false := by
  unfold nwcTcpHandlerClose NwcTcpHandler.armed
  rw [if_neg hs]
  cases hh : h.hHandle with
  | none => simp [NwcTcpHandler.removeHandler, NwcTcpHandler.cancelEvent]
  | some e => simp [NwcTcpHandler.removeHandler, NwcTcpHandler.cancelEvent]

@[simp] theorem nwcTcpHandlerClose_ioop (h : NwcTcpHandler) :
    (nwcTcpHandlerClose h).ioop = h.ioop := by
  unfold nwcTcpHandlerClose
  split <;> rfl

@[simp] theorem nwcTcpHandlerSend_state (h : NwcTcpHandler) (call : SysCall Nat) :
    (nwcTcpHandlerSend h call).2.state = h.state := by
  rw [nwcTcpHandlerSend_eq]

@[simp] theorem nwcTcpHandlerSend_armed (h : NwcTcpHandler) (call : SysCall Nat) :
    (nwcTcpHandlerSend h call).2.armed = h.armed := by
  rw [nwcTcpHandlerSend_eq]
  rfl

@[simp] theorem nwcTcpHandlerSend_ioop (h : NwcTcpHandler) (call : SysCall Nat) :
    (nwcTcpHandlerSend h call).2.ioop = h.ioop := by
  rw [nwcTcpHandlerSend_eq]

/-- What a receive comes to, by the last answer of the system. -/
theorem nwcTcpHandlerRecv_final : ∀ call : SysCall (List UInt8),
    (∃ data, call.final = .ok data ∧ nwcTcpHandlerRecv call = ((data.length : Int), data)) ∨
    (∃ errno, call.final = .error errno ∧ (nwcTcpHandlerRecv call).1 < 0 ∧
      ((nwcTcpHandlerRecv call).1 = -EAGAIN ↔ errno = EAGAIN))
  | .interrupted retry => nwcTcpHandlerRecv_final retry
  | .done data => Or.inl ⟨data, rfl, rfl⟩
  | .failed errno => by
    refine Or.inr ⟨errno, rfl, ?_⟩
    by_cases h1 : errno = EAGAIN ∨ errno = EWOULDBLOCK
    · have he : errno = EAGAIN := by
        rcases h1 with h | h
        · exact h
        · exact h
      simp [nwcTcpHandlerRecv, he, EAGAIN]
    · have hne : ¬errno = 11 := fun h => h1 (Or.inl h)
      rw [nwcTcpHandlerRecv, if_neg h1]
      split
      · simp [hne, EAGAIN, ECONNREFUSED]
      · simp [hne, EAGAIN]

end Nwchecker
