import Nwchecker.Lib.Machine
import Nwchecker.Tcp.Handler

/-!
# Write wakeups

A handler over its life, one call of `nwc_tcp_handler.c` at a time and in any order. What the
callbacks do to the handler follows as calls of their own.

A refused send clears `can_send`, and only `nwc_tcp_handle_output` sets it again. For that the
entry would have to wait for `EM_WRITE`, but `nwc_tcp_handler_send` does not register it.
-/

namespace Nwchecker

open Machine

/-! ## The calls -/

inductive TcpEvent where
  | connect (rc fd add : Int)
  | accept (fd add : Int)
  | send (call : SysCall Nat)
  | recv (call : SysCall (List UInt8))
  | close
  | input
  | output (soError : Int)

/-- One call. `nwc_tcp_handler_recv` and `nwc_tcp_handle_input` leave the handler as it is. -/
def tcpCall (eh : Nat) (h : NwcTcpHandler) : TcpEvent → NwcTcpHandler
  | .connect rc fd add => (nwcTcpHandlerConnect h rc fd add eh).2
  | .accept fd add => nwcTcpHandlerAccept h fd add eh
  | .send call => (nwcTcpHandlerSend h call).2
  | .recv _ => h
  | .close => nwcTcpHandlerClose h
  | .input => h
  | .output soError => (nwcTcpHandleOutput h soError).1

/-- Every call is possible at any time. -/
def tcpStep (eh : Nat) (h : NwcTcpHandler) (ev : TcpEvent) : Option NwcTcpHandler :=
  some (tcpCall eh h ev)

/-- The entry of the handler waits for `EM_WRITE`. -/
def NwcTcpHandler.waitsForWrite (h : NwcTcpHandler) : Bool :=
  match h.hHandle with
  | some e => e.mask.write
  | none => false

/-- An established handler that cannot send will be told when it can. -/
def NoLostWakeup (h : NwcTcpHandler) : Prop :=
  h.state = .established → h.canSend = false → h.waitsForWrite = true

instance (h : NwcTcpHandler) : Decidable (NoLostWakeup h) := inferInstanceAs (Decidable (_ → _ → _))

/-- The send met `EAGAIN`. -/
def TcpEvent.Refused : TcpEvent → Prop
  | .send call => nwcTcpHandlerSendRc call = -EAGAIN
  | _ => False

/-! ## What the calls do -/

@[simp] theorem cancelWrite_waitsForWrite (h : NwcTcpHandler) :
    (h.cancelEvent EM_WRITE).waitsForWrite = false := by
  unfold NwcTcpHandler.waitsForWrite NwcTcpHandler.cancelEvent
  cases h.hHandle with
  | none => rfl
  | some e => simp [nwcEpollCancelEvent]

/-- A handler attached for reading does not wait for `EM_WRITE`, whether `epoll_ctl` agreed or
not. -/
theorem attachRead_waitsForWrite (h : NwcTcpHandler) (fd add : Int) (eh : Nat) :
    (NwcTcpHandler.registerEvent { h with hHandle := nwcEpollAddHandler fd eh add }
      EM_READ).waitsForWrite = false := by
  unfold NwcTcpHandler.waitsForWrite NwcTcpHandler.registerEvent nwcEpollAddHandler
  by_cases hadd : add = 0
  · simp [hadd, nwcEpollRegisterEvent, EventMask.add, emNone, EM_READ]
  · simp [hadd]

/-- An established handler never waits for `EM_WRITE`. -/
def ReadOnly (h : NwcTcpHandler) : Prop := h.state = .established → h.waitsForWrite = false

theorem nwcTcpHandlerConnect_readOnly {h : NwcTcpHandler} (hr : ReadOnly h) (rc fd add : Int)
    (eh : Nat) : ReadOnly (nwcTcpHandlerConnect h rc fd add eh).2 := by
  unfold nwcTcpHandlerConnect
  dsimp only
  split
  · intro _
    exact attachRead_waitsForWrite { h with state := .established, fd := fd } fd add eh
  · split
    · intro hs
      cases hs
    · exact hr

theorem nwcTcpHandleOutput_waitsForWrite (h : NwcTcpHandler) (soError : Int) :
    (nwcTcpHandleOutput h soError).1.waitsForWrite = false := by
  have hw := cancelWrite_waitsForWrite h
  unfold nwcTcpHandleOutput
  dsimp only
  split
  · split
    · exact hw
    · exact hw
  · exact hw

theorem ReadOnly.step {eh : Nat} {h h' : NwcTcpHandler} {ev : TcpEvent} (hr : ReadOnly h)
    (hstep : tcpStep eh h ev = some h') : ReadOnly h' := by
  cases hstep
  cases ev with
  | connect rc fd add => exact nwcTcpHandlerConnect_readOnly hr rc fd add eh
  | accept fd add =>
    intro _
    exact attachRead_waitsForWrite { h with fd := fd } fd add eh
  | send call =>
    rw [tcpCall, nwcTcpHandlerSend_eq]
    exact hr
  | recv call => exact hr
  | close =>
    intro hs
    rw [tcpCall, nwcTcpHandlerClose_state] at hs
    cases hs
  | input => exact hr
  | output soError =>
    intro _
    exact nwcTcpHandleOutput_waitsForWrite h soError

/-- Only a refused send clears `can_send`. -/
theorem canSend_step {eh : Nat} {h h' : NwcTcpHandler} {ev : TcpEvent} (hc : h.canSend = true)
    (hev : ¬ev.Refused) (hstep : tcpStep eh h ev = some h') : h'.canSend = true := by
  cases hstep
  cases ev with
  | connect rc fd add =>
    show (nwcTcpHandlerConnect h rc fd add eh).2.canSend = true
    unfold nwcTcpHandlerConnect
    dsimp only
    split
    · exact hc
    · split
      · exact hc
      · exact hc
  | accept fd add => exact hc
  | send call =>
    rw [tcpCall, nwcTcpHandlerSend_eq]
    have hne : nwcTcpHandlerSendRc call ≠ -EAGAIN := hev
    simp [hc, hne]
  | recv call => exact hc
  | close =>
    show (nwcTcpHandlerClose h).canSend = true
    unfold nwcTcpHandlerClose
    split
    · exact hc
    · exact hc
  | input => exact hc
  | output soError =>
    show (nwcTcpHandleOutput h soError).1.canSend = true
    unfold nwcTcpHandleOutput
    dsimp only
    split
    · split
      · exact hc
      · exact hc
    · rfl

/-! ## The life of a handler -/

/--
**When no wakeup is lost.**

In every run in which no send is refused, every state is fine. And every refused send on an
established handler, in whatever run, leads to a state in which the wakeup is lost.
-/
theorem noLostWakeup_of_not_refused (ioop : Bool) (eh : Nat) (events : List TcpEvent)
    (h : NwcTcpHandler) (hrun : replay (tcpStep eh) (nwcTcpHandlerInit ioop) events = some h) :
    ((∀ ev ∈ events, ¬ev.Refused) → NoLostWakeup h) ∧
      (h.state = .established → ∀ ev h', ev.Refused → tcpStep eh h ev = some h' →
        ¬NoLostWakeup h') := by
  refine ⟨fun hnone => ?_, fun hs ev h' href hstep hwake => ?_⟩
  · have hcan : h.canSend = true :=
      replay_invariant (fun g ev g' hev hg hstep => canSend_step hg hev hstep) hnone rfl hrun
    intro _ hc
    rw [hcan] at hc
    cases hc
  · have hr : ReadOnly h :=
      replay_invariant (I := fun _ => True) (fun g ev g' _ hg hstep => hg.step hstep)
        (fun _ _ => trivial) (fun hs => by cases hs) hrun
    cases ev with
    | send call =>
      have hrc : nwcTcpHandlerSendRc call = -EAGAIN := href
      cases hstep
      rw [tcpCall, nwcTcpHandlerSend_eq] at hwake
      have hw : h.waitsForWrite = true := hwake hs (by simp [hrc])
      rw [hr hs] at hw
      cases hw
    | connect rc fd add => exact href
    | accept fd add => exact href
    | recv call => exact href
    | close => exact href
    | input => exact href
    | output soError => exact href

/-- Connect in progress, become established, send. -/
theorem connected_noLostWakeup : ∃ h,
    replay (tcpStep 0) (nwcTcpHandlerInit true)
        [.connect EINPROGRESS 5 0, .output 0, .send (.done 20)] = some h ∧ NoLostWakeup h := by
  refine ⟨_, rfl, (noLostWakeup_of_not_refused true 0
    [.connect EINPROGRESS 5 0, .output 0, .send (.done 20)] _ rfl).1 ?_⟩
  intro ev hev
  have hcases : ev = .connect EINPROGRESS 5 0 ∨ ev = .output 0 ∨ ev = .send (.done 20) := by
    simpa using hev
  rcases hcases with rfl | rfl | rfl
  · exact id
  · exact id
  · show ¬nwcTcpHandlerSendRc (.done 20) = -EAGAIN
    decide

/-- An accepted connection whose socket buffer is full. -/
theorem refusedSend_lostWakeup : ∃ h,
    replay (tcpStep 0) (nwcTcpHandlerInit true) [.accept 5 0, .send (.failed EAGAIN)] = some h ∧
      ¬NoLostWakeup h :=
  ⟨_, rfl, by decide⟩

end Nwchecker
