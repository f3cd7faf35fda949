import Nwchecker.Lib.Loop
import Nwchecker.Lib.Machine
import Nwchecker.Connection.Recv

/-!
# `nwc_connection_on_send` and the life of a connection

The send callback, which the client's send worker runs once a tick, the statistics, which its other
worker makes, and the machine that puts the callbacks of one connection together: `connStep`
delivers readable events, ticks, statistics and writable events in any order.

A run is a list of events. The inputs of the last event may stop in the middle of its loop, so the
ends of runs are all the moments of the life of the connection, also those inside a callback.
-/

namespace Nwchecker

open Words Loop

/-! ## The callback -/

/-- What the outside answers during one pass of the send loop. -/
structure SendEnv where
  now : UInt32
  block : Block (qosHdrLen + (1300 : UInt32).toNat)
  call : SysCall Nat

/-- `cur` is `cur_sentbytes`. -/
structure SendState where
  session : Session
  cur : UInt32
  rc : Int

inductive SendExit where
  /-- The budget of the tick is spent, or the socket takes no more. -/
  | done (rc : Int) (s : Session)
  | closed (rc : Int) (s : Session)

/-- The session with a new package in its sent queue, and that package. -/
def createPackage (env : SendEnv) (s : Session) : Session × NwcPackage :=
  let r := nwcQosCreatePackage s.conn.qos 1300 env.block
  ({ s with conn := { s.conn with qos := r.1.stampLast env.now } },
    { r.2 with hdr := { r.2.hdr with timestamp := env.now } })

/-- One pass of `while (cur_sentbytes < nwc->qos.send_bandwidth)`. -/
def sendPass (env : SendEnv) (p : SendState) : Flow SendState SendExit :=
  if p.cur < p.session.conn.qos.sendBandwidth then
    let pkg := createPackage env p.session
    let r := nwcIoSend pkg.1 pkg.2.bytes env.call
    if r.1 ≤ 0 then
      if r.1 ≠ -EAGAIN then .leave (.closed r.1 (nwcConnectionClose r.2))
      else .leave (.done r.1 r.2)
    -- the next pass makes a new package, whatever is left of this one
    else .again { session := r.2, cur := p.cur + UInt32.ofNat (u32 r.1), rc := r.1 }
  else .leave (.done p.rc p.session)

def nwcConnectionOnSend (s : Session) (env : List SendEnv) : Outcome :=
  if s.io.canSend then
    match s.conn.mode with
    | .client =>
      match passes sendPass env { session := s, cur := 0, rc := 0 } with
      | .again p => .inLoop p.session
      | .leave (.done rc s) => .returned rc s
      | .leave (.closed rc s) => .closed rc s
    | .server => .returned 0 s
  else .returned 0 s

/-- The session after one pass: a package made and offered to the socket. -/
def tickSent (env : SendEnv) (s : Session) : Session :=
  (nwcIoSend (createPackage env s).1 (createPackage env s).2.bytes env.call).2

theorem tickSent_mode (env : SendEnv) (s : Session) : (tickSent env s).conn.mode = s.conn.mode := by
  rw [tickSent, nwcIoSend_session]
  rfl

/-- The send of one pass. -/
def offered (env : SendEnv) (s : Session) : SendRecord where
  buffer := (createPackage env s).2.bytes
  rc := nwcTcpHandlerSendRc env.call

theorem tickSent_sends (env : SendEnv) (s : Session) :
    (tickSent env s).sock.sends = s.sock.sends ++ [offered env s] := by
  rw [tickSent, nwcIoSend_session]
  rfl

theorem tickSent_qos (env : SendEnv) (s : Session) :
    (tickSent env s).conn.qos
      = (nwcQosCreatePackage s.conn.qos 1300 env.block).1.stampLast env.now := by
  rw [tickSent, nwcIoSend_session]
  rfl

/-- The package goes to the end of the queue, as it is offered. -/
theorem tickSent_sentQueue (env : SendEnv) (s : Session) :
    (tickSent env s).conn.qos.sentQueue
      = s.conn.qos.sentQueue ++ [{ message := (createPackage env s).2, flag := 0 }] := by
  rw [tickSent_qos]
  simp only [createPackage, nwcQosCreatePackage, NwcQosProtocol.stampLast,
    List.getLast?_append_cons, List.getLast?_singleton, List.dropLast_concat]

/-- A pass has nothing left to send, or its send fails, or it goes on. -/
theorem sendPass_cases (env : SendEnv) (p : SendState) :
    (p.session.conn.qos.sendBandwidth ≤ p.cur ∧
        sendPass env p = .leave (.done p.rc p.session)) ∨
      (nwcTcpHandlerSendRc env.call ≤ 0 ∧
        (sendPass env p
            = .leave (.done (nwcTcpHandlerSendRc env.call) (tickSent env p.session)) ∨
          sendPass env p
            = .leave (.closed (nwcTcpHandlerSendRc env.call)
                (nwcConnectionClose (tickSent env p.session))))) ∨
      (p.cur < p.session.conn.qos.sendBandwidth ∧ 0 < nwcTcpHandlerSendRc env.call ∧
        sendPass env p = .again
          { session := tickSent env p.session
            cur := p.cur + UInt32.ofNat (u32 (nwcTcpHandlerSendRc env.call))
            rc := nwcTcpHandlerSendRc env.call }) := by
  unfold sendPass
  by_cases hcur : p.cur < p.session.conn.qos.sendBandwidth
  · rw [if_pos hcur]
    simp only [nwcIoSend_rc]
    by_cases hrc : nwcTcpHandlerSendRc env.call ≤ 0
    · rw [if_pos hrc]
      refine Or.inr (Or.inl ⟨hrc, ?_⟩)
      split
      · exact Or.inr rfl
      · exact Or.inl rfl
    · rw [if_neg hrc]
      exact Or.inr (Or.inr ⟨hcur, by omega, rfl⟩)
  · rw [if_neg hcur]
    exact Or.inl ⟨UInt32.not_lt.mp hcur, rfl⟩

/-- What every pass of a client keeps, the callback keeps, however it ends. -/
theorem onSend_rule_of {P : Session → Prop} {I : SendEnv → Prop}
    (hsent : ∀ s env, I env → s.conn.mode = .client → P s → P (tickSent env s))
    (hclose : ∀ s, P s → P (nwcConnectionClose s)) (s : Session) (envs : List SendEnv)
    (henvs : ∀ env ∈ envs, I env) (h : P s) :
    ∃ t, P t ∧ ((∃ rc, nwcConnectionOnSend s envs = .returned rc t) ∨
      (∃ rc, nwcConnectionOnSend s envs = .closed rc t) ∨
      nwcConnectionOnSend s envs = .inLoop t) := by
  unfold nwcConnectionOnSend
  split
  · split
    · next hm =>
      have hpass : ∀ env (p : SendState), I env → (p.session.conn.mode = .client ∧ P p.session) →
          (∀ p', sendPass env p = .again p' → p'.session.conn.mode = .client ∧ P p'.session) ∧
          (∀ r, sendPass env p = .leave r → match r with
            | .done _ t => P t
            | .closed _ t => P t) := by
        rintro env p henv ⟨hpm, hp⟩
        have ht := hsent p.session env henv hpm hp
        rcases sendPass_cases env p with ⟨-, heq⟩ | ⟨-, heq | heq⟩ | ⟨-, -, heq⟩
        · rw [heq]
          exact Flow.at_leave hp
        · rw [heq]
          exact Flow.at_leave ht
        · rw [heq]
          exact Flow.at_leave (hclose _ ht)
        · rw [heq]
          exact Flow.at_again ⟨(tickSent_mode env _).trans hpm, ht⟩
      have hrule := passes_rule (I := I)
        (fun env p p' henv hp hb => (hpass env p henv hp).1 p' hb)
        (fun env p r henv hp hb => (hpass env p henv hp).2 r hb) envs henvs
        (s := { session := s, cur := 0, rc := 0 }) ⟨hm, h⟩
      split
      · next p hp => exact ⟨_, (hrule.1 p hp).2, Or.inr (Or.inr rfl)⟩
      · next rc t hp => exact ⟨t, hrule.2 _ hp, Or.inl ⟨rc, rfl⟩⟩
      · next rc t hp => exact ⟨t, hrule.2 _ hp, Or.inr (Or.inl ⟨rc, rfl⟩)⟩
    · exact ⟨s, h, Or.inl ⟨0, rfl⟩⟩
  · exact ⟨s, h, Or.inl ⟨0, rfl⟩⟩

/-- The rule for whatever the outside answers. -/
theorem onSend_rule {P : Session → Prop}
    (hsent : ∀ s env, s.conn.mode = .client → P s → P (tickSent env s))
    (hclose : ∀ s, P s → P (nwcConnectionClose s)) (s : Session) (envs : List SendEnv) (h : P s) :
    ∃ t, P t ∧ ((∃ rc, nwcConnectionOnSend s envs = .returned rc t) ∨
      (∃ rc, nwcConnectionOnSend s envs = .closed rc t) ∨
      nwcConnectionOnSend s envs = .inLoop t) :=
  onSend_rule_of (I := fun _ => True) (fun s env _ => hsent s env) hclose s envs
    (fun _ _ => trivial) h

/-! ## The statistics -/

/-- `nwc_connection_stat` -/
def nwcConnectionStat (s : Session) (now : UInt32) : Session × Option NwcQosReport :=
  let r := nwcQosStat s.conn.qos now
  ({ s with conn := { s.conn with qos := r.1 } }, r.2)

/-! ## The machine -/

inductive ConnEvent where
  /-- `on_recv` -/
  | recv (a : Arrival)
  /-- The send worker runs `on_send`. -/
  | tick (env : List SendEnv)
  /-- The statistics worker runs `nwc_connection_stat`. -/
  | stat (now : UInt32)
  /-- `nwc_tcp_handle_output`, and `on_send` if it calls that. -/
  | writable (soError : Int) (env : List SendEnv)

/-- The kernel does not return more than it was asked for. -/
def Arrival.Fits (a : Arrival) (c : NwcConnection) : Prop :=
  match a.call.final with
  | .ok data => data.length ≤ c.recvRequest
  | .error _ => True

instance (a : Arrival) (c : NwcConnection) : Decidable (a.Fits c) :=
  match h : a.call.final with
  | .ok data => decidable_of_iff (data.length ≤ c.recvRequest) (by simp [Arrival.Fits, h])
  | .error _ => isTrue (by simp [Arrival.Fits, h])

/-- The next event, if the last callback has returned and the connection is still there. -/
def connStep : Outcome → ConnEvent → Option Outcome
  | .returned _ s, .recv a => if a.Fits s.conn then some (nwcConnectionOnRecv s a) else none
  | .returned _ s, .tick env => some (nwcConnectionOnSend s env)
  | .returned rc s, .stat now =>
    -- the worker is the client's: a server never runs `nwc_connection_send`
    if s.conn.mode = .client then some (.returned rc (nwcConnectionStat s now).1) else none
  | .returned rc s, .writable soError env =>
    let r := nwcTcpHandleOutput s.io soError
    match r.2 with
    | some .onSend => some (nwcConnectionOnSend { s with io := r.1 } env)
    -- `on_connect` starts the workers, and their ticks are events
    | _ => some (.returned rc { s with io := r.1 })
  | _, _ => none

/-- The statistics run on a client, and the callback returns. -/
theorem connStep_stat {rc : Int} {s : Session} {now : UInt32} {o : Outcome}
    (h : connStep (.returned rc s) (.stat now) = some o) :
    s.conn.mode = .client ∧ o = .returned rc (nwcConnectionStat s now).1 := by
  simp only [connStep] at h
  split at h
  · next hmode => exact ⟨hmode, (Option.some.inj h).symm⟩
  · cases h

/-- Only a connection whose last callback has returned gets another event. -/
theorem connStep_from {o o' : Outcome} {ev : ConnEvent} (h : connStep o ev = some o') :
    ∃ rc s, o = .returned rc s := by
  cases o with
  | returned rc s => exact ⟨rc, s, rfl⟩
  | closed rc s => simp [connStep] at h
  | inLoop s => simp [connStep] at h
  | wild s => simp [connStep] at h

/--
What the callbacks keep, the machine keeps.

`P` is a property of the sessions between callbacks and `Q` one of all outcomes; `io` may change
under `P`, since a writable event changes nothing else before it calls `on_send`.
-/
theorem connStep_rule {P : Session → Prop} {Q : Outcome → Prop}
    (hret : ∀ rc s, Q (.returned rc s) ↔ P s)
    (hio : ∀ s io, P s → P { s with io := io })
    (hrecv : ∀ s a, P s → a.Fits s.conn → Q (nwcConnectionOnRecv s a))
    (hsend : ∀ s env, P s → Q (nwcConnectionOnSend s env))
    (hstat : ∀ s now, s.conn.mode = .client → P s → P (nwcConnectionStat s now).1) :
    ∀ o ev o', Q o → connStep o ev = some o' → Q o' := by
  intro o ev o' hQ hstep
  obtain ⟨rc, s, rfl⟩ := connStep_from hstep
  have hP : P s := (hret rc s).mp hQ
  cases ev with
  | recv a =>
    simp only [connStep] at hstep
    split at hstep
    · next hfits =>
      rw [← Option.some.inj hstep]
      exact hrecv s a hP hfits
    · cases hstep
  | tick env =>
    rw [← Option.some.inj hstep]
    exact hsend s env hP
  | stat now =>
    obtain ⟨hmode, rfl⟩ := connStep_stat hstep
    exact (hret rc _).mpr (hstat s now hmode hP)
  | writable soError env =>
    simp only [connStep] at hstep
    split at hstep
    · rw [← Option.some.inj hstep]
      exact hsend _ env (hio s _ hP)
    · rw [← Option.some.inj hstep]
      exact (hret rc _).mpr (hio s _ hP)

end Nwchecker
