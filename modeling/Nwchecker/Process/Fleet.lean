import Nwchecker.Connection.Exchange
import Nwchecker.Process.Runs

/-!
# A server and its clients

The server process with any number of clients. A client dials in and may send at once; `accept`
gives the connections out in the order in which they were dialled. From then on the events of all
clients and all calls of `nwc_epoll_run` interleave in any way.

The connections share the process, its loop and `conn_hdr`. `fleet_isolated` says that nothing of
this can be seen on any one of them: it is in a state in which it could be if the server had no
other client. So what holds of an exchange holds of every connection, whatever the others do.
-/

namespace Nwchecker

open Ring Loop Machine

/-- A client, and the bytes on the way between it and the server. -/
structure Line where
  client : Outcome
  toServer : List UInt8
  toClient : List UInt8

structure Fleet where
  world : World
  /-- Line `i` leads to connection `i` of the server, once that has been accepted. -/
  lines : List Line

inductive FleetEvent where
  | dial (setup : EndSetup)
  | client (i : Nat) (ev : ConnEvent)
  | world (ev : WorldEvent)

namespace Line

/-- A callback of the client. -/
def clientStep (l : Line) (ev : ConnEvent) : Option Line :=
  match endStep l.client ev l.toClient l.toServer with
  | some (o, inbound, outbound) => some { client := o, toServer := outbound, toClient := inbound }
  | none => none

/--
The session of the server went from `s` to `t`. What it has read was in front of the bytes on the
way to it, and what it has sent is on the way to the client.
-/
def served (l : Line) (s t : Session) : Option Line :=
  let taken := t.sock.delivered.drop s.sock.delivered.length
  if taken <+: l.toServer then
    some
      { l with
        toServer := l.toServer.drop taken.length
        toClient := l.toClient ++ t.sock.accepted.drop s.sock.accepted.length }
  else none

end Line

namespace Fleet

/-- The streams of line `i` after the server has made the step to `w`. -/
def serve (f : Fleet) (w : World) (i : Nat) : Option Fleet :=
  match f.lines[i]?, f.world.peers[i]?, w.peers[i]? with
  | some l, some p, some q =>
    (l.served p.session q.session).map fun l => { world := w, lines := f.lines.set i l }
  | _, _, _ => none

def relay (f : Fleet) (w : World) : WorldEvent → Option Fleet
  | .accept newfd _ _ _ =>
    -- `accept` fails or takes the next one in line
    if newfd = -1 ∨ f.world.peers.length < f.lines.length then some { f with world := w } else none
  | .stop => some { f with world := w }
  | .input i _ => f.serve w i
  | .output i _ _ => f.serve w i
  | .tick i _ => f.serve w i
  | .stat i _ => f.serve w i

def step (f : Fleet) : FleetEvent → Option Fleet
  | .dial setup =>
    some
      { f with
        lines := f.lines ++ [{ client := setup.opened .client, toServer := [], toClient := [] }] }
  | .client i ev =>
    match f.lines[i]? with
    | some l => (l.clientStep ev).map fun l => { f with lines := f.lines.set i l }
    | none => none
  | .world ev => (worldStep f.world ev).bind fun w => f.relay w ev

/-- A server that listens. -/
def start (bandwidth : Int) (links : Links Nat) : Fleet where
  world := World.server bandwidth links
  lines := []

end Fleet

/-! ## One connection -/

/-- The line with what is at its end. -/
def Line.exchange (l : Line) (server : Outcome) : Exchange where
  client := l.client
  server := server
  toServer := l.toServer
  toClient := l.toClient

/-- What the last callback of the server came to, as far as the process goes on. -/
def Outcome.Open : Outcome → Prop
  | .returned _ s => s.io.state = .established
  | .closed _ s => s.io.armed = false
  | .inLoop _ => True
  | .wild _ => True

/-- The connection `p` of the server is at the outcome `o`. -/
structure Attends (o : Outcome) (p : Peer) (running : Prop) : Prop where
  session : o.session = p.session
  mode : p.session.conn.mode = .server
  workers : p.workers = false
  opened : o.Open
  returned : running → p.session.io.armed = true → ∃ rc, o = .returned rc p.session

/-- What can have become of a line that leads to connection `p`, if that has been accepted. -/
def Line.Alone (l : Line) (running : Prop) : Option Peer → Prop
  | none => ∃ client, ∀ server : EndSetup, ∃ es,
      replay exchangeStep (.start client server) es = some (l.exchange (server.opened .server))
  | some p => ∃ client server es o,
      replay exchangeStep (.start client server) es = some (l.exchange o) ∧ Attends o p running

variable {l l' : Line} {p q : Peer} {o o' : Outcome} {s t : Session} {running running' : Prop}

theorem Attends.mono (h : Attends o p running) (himp : running' → running) :
    Attends o p running' where
  session := h.session
  mode := h.mode
  workers := h.workers
  opened := h.opened
  returned := fun hr => h.returned (himp hr)

theorem Line.Alone.mono {server : Option Peer} (h : l.Alone running server)
    (himp : running' → running) : l.Alone running' server := by
  cases server with
  | none => exact h
  | some p =>
    obtain ⟨client, server, es, o, hrun, hattends⟩ := h
    exact ⟨client, server, es, o, hrun, hattends.mono himp⟩

/-- An event at the client is one of the exchange. -/
theorem clientStep_exchange {ev : ConnEvent} (h : l.clientStep ev = some l') (server : Outcome) :
    exchangeStep (l.exchange server) (.client ev) = some (l'.exchange server) := by
  unfold Line.clientStep at h
  split at h
  · next o inbound outbound hend =>
    cases h
    simp only [exchangeStep, Line.exchange, hend]
  · cases h

theorem Line.Alone.client {server : Option Peer} {ev : ConnEvent} (h : l.Alone running server)
    (hstep : l.clientStep ev = some l') : l'.Alone running server := by
  cases server with
  | none =>
    obtain ⟨client, hall⟩ := h
    refine ⟨client, fun server => ?_⟩
    obtain ⟨es, hrun⟩ := hall server
    exact ⟨es ++ [.client ev],
      replay_concat.mpr ⟨_, hrun, clientStep_exchange hstep (server.opened .server)⟩⟩
  | some p =>
    obtain ⟨client, server, es, o, hrun, hattends⟩ := h
    exact ⟨client, server, es ++ [.client ev], o,
      replay_concat.mpr ⟨_, hrun, clientStep_exchange hstep o⟩, hattends⟩

/-- A callback of the server is one of the exchange. -/
theorem served_exchange {rc : Int} {ev : ConnEvent} (hstep : connStep (.returned rc s) ev = some o)
    (hserved : l.served s o.session = some l') :
    exchangeStep (l.exchange (.returned rc s)) (.server ev) = some (l'.exchange o) := by
  obtain ⟨hdel, -⟩ := connStep_grows hstep
  have htaken : o.session.sock.delivered.drop s.sock.delivered.length = ev.reads := by
    rw [hdel]
    exact List.drop_left
  unfold Line.served at hserved
  rw [htaken] at hserved
  dsimp only at hserved
  split at hserved
  · next hreads =>
    cases hserved
    simp only [exchangeStep, endStep, Line.exchange, if_pos hreads, hstep]
    rfl
  · cases hserved

/-! ## The callbacks of the server -/

theorem nwcConnectionClose_unarmed (hs : s.io.state = .established) :
    (nwcConnectionClose s).io.armed = false :=
  nwcTcpHandlerClose_armed s.io fun h => by
    rw [hs] at h
    cases h

/-- The handler at the ways out of the parse loop. -/
def ParseExit.Open : ParseExit → Prop
  | .closed s => s.io.armed = false
  | .drained p => p.session.io.state = .established
  | .wild p => p.session.io.state = .established

theorem parsePass_open (recvTs : UInt32) (env : PassEnv) {p : ParseState}
    (hp : p.session.io.state = .established) :
    (∀ p', parsePass recvTs env p = .again p' → p'.session.io.state = .established) ∧
      (∀ r, parsePass recvTs env p = .leave r → r.Open) := by
  unfold parsePass
  split
  · exact Flow.at_leave hp
  · split
    · exact Flow.at_leave hp
    · split
      · exact Flow.at_leave hp
      · split
        · split
          · exact Flow.at_again hp
          · dsimp only
            rw [nwcIoSend_session]
            split
            · exact Flow.at_leave (nwcConnectionClose_unarmed hp)
            · exact Flow.at_again hp
        · exact Flow.at_again hp

theorem onRecv_open (hs : s.io.state = .established) (a : Arrival) :
    (nwcConnectionOnRecv s a).Open := by
  rcases onRecv_cases s a with ⟨errno, -, ⟨-, heq⟩ | ⟨-, rc, heq⟩⟩ | ⟨-, heq⟩ |
    ⟨data, -, -, -, heq⟩
  · rw [heq]
    exact hs
  · rw [heq]
    exact nwcConnectionClose_unarmed hs
  · rw [heq]
    exact nwcConnectionClose_unarmed hs
  · have hrule : (∀ p, passes (parsePass a.recvTs) a.env (parseEntry s data) = .again p →
        p.session.io.state = .established) ∧
          ∀ r, passes (parsePass a.recvTs) a.env (parseEntry s data) = .leave r → r.Open :=
      passes_rule (I := fun _ => True) (fun env p p' _ hp hb => (parsePass_open _ env hp).1 p' hb)
        (fun env p r _ hp hb => (parsePass_open _ env hp).2 r hb) a.env (fun _ _ => trivial) hs
    obtain ⟨-, hleave⟩ := hrule
    rw [heq]
    rcases hpass : passes (parsePass a.recvTs) a.env (parseEntry s data) with p | p | t | p
    · trivial
    · have hp : p.session.io.state = .established := hleave _ hpass
      show (recvFinish p).Open
      unfold recvFinish
      split
      · split
        · exact hp
        · trivial
      · exact hp
    · exact hleave _ hpass
    · trivial

/-- A server has nothing to send of its own accord. -/
theorem onSend_server (hm : s.conn.mode = .server) (envs : List SendEnv) :
    nwcConnectionOnSend s envs = .returned 0 s := by
  simp only [nwcConnectionOnSend, hm, ite_self]

/-! ## A call of the server -/

theorem ofOutcome_attends {trace : Trace} (hsession : o.Open) (hm : o.session.conn.mode = .server)
    (hworkers : p.workers = false) :
    Attends o (Turn.ofOutcome p trace o).peer ((Turn.ofOutcome p trace o).stuck = false) := by
  cases o with
  | returned rc s => exact ⟨rfl, hm, hworkers, hsession, fun _ _ => ⟨rc, rfl⟩⟩
  | closed rc s =>
    refine ⟨rfl, hm, rfl, hsession, fun _ harmed => ?_⟩
    have hunarmed : s.io.armed = false := hsession
    exact Bool.noConfusion (hunarmed.symm.trans harmed)
  | inLoop s => exact ⟨rfl, hm, hworkers, trivial, fun h => by cases h⟩
  | wild s => exact ⟨rfl, hm, hworkers, trivial, fun h => by cases h⟩

/-- Nothing was read and nothing sent. -/
theorem served_same (h : l.served s s = some l') : l' = l := by
  unfold Line.served at h
  rw [List.drop_length, List.drop_length] at h
  dsimp only at h
  rw [if_pos List.nil_prefix, List.append_nil] at h
  exact (Option.some.inj h).symm

theorem Line.Alone.input (h : l.Alone True (some p)) (harmed : p.session.io.armed = true)
    {a : Arrival} (hfits : a.Fits p.session.conn) (i : Nat)
    (hserved : l.served p.session (inputTurn i p a).peer.session = some l') :
    l'.Alone ((inputTurn i p a).stuck = false) (some (inputTurn i p a).peer) := by
  obtain ⟨client, server, es, o, hrun, hattends⟩ := h
  obtain ⟨rc, rfl⟩ := hattends.returned trivial harmed
  have hstate : p.session.io.state = .established := hattends.opened
  unfold inputTurn at hserved ⊢
  split at hserved
  · rw [ofOutcome_session] at hserved
    have hstep : connStep (.returned rc p.session) (.recv a)
        = some (nwcConnectionOnRecv p.session a) := if_pos hfits
    have hm : (nwcConnectionOnRecv p.session a).session.conn.mode = .server :=
      (onRecv_digests p.session a).2.2.1.trans hattends.mode
    exact ⟨client, server, es ++ [_], _,
      replay_concat.mpr ⟨_, hrun, served_exchange hstep hserved⟩,
      ofOutcome_attends (onRecv_open hstate a) hm hattends.workers⟩
  · rw [served_same hserved]
    exact ⟨client, server, es, _, hrun, hattends.mono fun _ => trivial⟩

/-- What a writable event does to a connection of the server. -/
def writable (s : Session) (soError : Int) : Session :=
  { s with io := (nwcTcpHandleOutput s.io soError).1 }

/-- With `ioop` or without, the call comes back with nothing sent. -/
theorem outputTurn_server (hs : p.session.io.state = .established)
    (hm : p.session.conn.mode = .server) (i : Nat) (rc soError : Int) (envs : List SendEnv) :
    (outputTurn i p soError envs).peer = { p with session := writable p.session soError } ∧
      (outputTurn i p soError envs).stuck = false ∧ ∃ rc',
        connStep (.returned rc p.session) (.writable soError envs)
          = some (.returned rc' (writable p.session soError)) := by
  have hsend := onSend_server (s := writable p.session soError) hm envs
  have hcallback : (nwcTcpHandleOutput p.session.io soError).2
      = if p.session.io.ioop then some .onSend else none := by
    unfold nwcTcpHandleOutput
    dsimp only
    rw [if_neg (by simp [hs])]
    rfl
  unfold writable at hsend
  cases hioop : p.session.io.ioop with
  | true =>
    rw [hioop, if_pos rfl] at hcallback
    simp only [outputTurn, connStep, hcallback, hsend]
    exact ⟨rfl, rfl, 0, rfl⟩
  | false =>
    rw [hioop, if_neg (by decide)] at hcallback
    simp only [outputTurn, connStep, hcallback]
    exact ⟨rfl, trivial, rc, rfl⟩

theorem Line.Alone.output (h : l.Alone True (some p)) (harmed : p.session.io.armed = true)
    (i : Nat) (soError : Int) (envs : List SendEnv)
    (hserved : l.served p.session (outputTurn i p soError envs).peer.session = some l') :
    l'.Alone ((outputTurn i p soError envs).stuck = false)
      (some (outputTurn i p soError envs).peer) := by
  obtain ⟨client, server, es, o, hrun, hattends⟩ := h
  obtain ⟨rc, rfl⟩ := hattends.returned trivial harmed
  have hstate : p.session.io.state = .established := hattends.opened
  obtain ⟨hpeer, -, rc', hstep⟩ := outputTurn_server hstate hattends.mode i rc soError envs
  have hopen : (writable p.session soError).io.state = .established := by
    simp [writable, nwcTcpHandleOutput, hstate]
  rw [hpeer] at hserved ⊢
  exact ⟨client, server, es ++ [_], _,
    replay_concat.mpr ⟨_, hrun, served_exchange hstep hserved⟩,
    ⟨rfl, hattends.mode, hattends.workers, hopen, fun _ _ => ⟨rc', rfl⟩⟩⟩

/-! ## All connections -/

namespace Fleet

/-- What a running server has to do with its clients. -/
structure Isolated (f : Fleet) : Prop where
  mode : f.world.mode = .server
  accepted : f.world.peers.length ≤ f.lines.length
  alone : ∀ (i : Nat) (l : Line), f.lines[i]? = some l →
    l.Alone (f.world.status = .running) f.world.peers[i]?

variable {f f' : Fleet} {w : World}

theorem start_isolated (bandwidth : Int) (links : Links Nat) :
    (start bandwidth links).Isolated where
  mode := rfl
  accepted := Nat.le_refl 0
  alone := fun _ _ hl => by cases hl

theorem Isolated.dial (h : f.Isolated) (setup : EndSetup) :
    Isolated
      { f with
        lines := f.lines ++
          [{ client := setup.opened .client, toServer := [], toClient := [] }] } where
  mode := h.mode
  accepted := by
    rw [List.length_append]
    exact Nat.le_trans h.accepted (Nat.le_add_right _ _)
  alone := by
    intro i l hl
    rcases Nat.lt_or_ge i f.lines.length with hi | hi
    · rw [List.getElem?_append_left hi] at hl
      exact h.alone i l hl
    · have hnone : f.world.peers[i]? = none :=
        List.getElem?_eq_none (Nat.le_trans h.accepted hi)
      show l.Alone _ f.world.peers[i]?
      rw [hnone]
      rw [List.getElem?_append_right hi] at hl
      have hl := List.mem_singleton.mp (List.mem_of_getElem? hl)
      rw [hl]
      exact ⟨setup, fun server => ⟨[], rfl⟩⟩

theorem Isolated.client (h : f.Isolated) {i : Nat} {l l' : Line} (hl : f.lines[i]? = some l)
    {ev : ConnEvent} (hstep : l.clientStep ev = some l') :
    Isolated { f with lines := f.lines.set i l' } where
  mode := h.mode
  accepted := by
    rw [List.length_set]
    exact h.accepted
  alone := by
    intro j m hm
    by_cases hij : i = j
    · subst hij
      rw [List.getElem?_set_self (List.getElem?_eq_some_iff.mp hl).1] at hm
      rw [← Option.some.inj hm]
      exact (h.alone i l hl).client hstep
    · rw [List.getElem?_set_ne hij] at hm
      exact h.alone j m hm

/-- The server has served line `i`, and is stuck or not. -/
theorem Isolated.turn (h : f.Isolated) {i : Nat} {l : Line} {t : Turn}
    (hi : i < f.world.peers.length) (hrun : f.world.status = .running)
    (halone : l.Alone (t.stuck = false) (some t.peer)) :
    Isolated { world := f.world.take i t, lines := f.lines.set i l } where
  mode := h.mode
  accepted := by
    rw [List.length_set, World.take, List.length_set]
    exact h.accepted
  alone := by
    intro j m hm
    have hstatus : (f.world.take i t).status = .running → t.stuck = false := by
      intro hstatus
      by_contra hstuck
      rw [World.take, if_pos (by simpa using hstuck)] at hstatus
      cases hstatus
    by_cases hij : i = j
    · subst hij
      rw [List.getElem?_set_self (Nat.lt_of_lt_of_le hi h.accepted)] at hm
      rw [← Option.some.inj hm]
      show Line.Alone _ _ (f.world.peers.set i t.peer)[i]?
      rw [List.getElem?_set_self hi]
      exact halone.mono hstatus
    · rw [List.getElem?_set_ne hij] at hm
      show Line.Alone _ _ (f.world.peers.set i t.peer)[j]?
      rw [List.getElem?_set_ne hij]
      exact (h.alone j m hm).mono fun _ => hrun

theorem Isolated.accept (h : f.Isolated) {newfd add : Int} {recvBuff : RecvBuffer} {stale : UInt32}
    (hnew : newfd = -1 ∨ f.world.peers.length < f.lines.length) :
    Isolated { f with world := f.world.accept newfd add recvBuff stale } := by
  unfold World.accept
  dsimp only
  split
  · exact ⟨h.mode, h.accepted, h.alone⟩
  · next hfd =>
    have hlt := hnew.resolve_left hfd
    refine ⟨h.mode, ?_, fun i l hl => ?_⟩
    · show (f.world.peers ++ [_]).length ≤ _
      rw [List.length_append, List.length_singleton]
      exact hlt
    · show Line.Alone l (f.world.status = .running)
        (f.world.peers ++ [acceptedPeer f.world newfd add recvBuff stale])[i]?
      have halone := h.alone i l hl
      rcases Nat.lt_trichotomy i f.world.peers.length with hi | hi | hi
      · rw [List.getElem?_append_left hi]
        exact halone
      · rw [hi, List.getElem?_concat_length]
        rw [hi, List.getElem?_eq_none (Nat.le_refl _)] at halone
        obtain ⟨client, hall⟩ := halone
        obtain ⟨es, hes⟩ := hall
          { bandwidth := f.world.bandwidth
            recvBuff := recvBuff
            stale := stale
            io := nwcTcpHandlerAccept (nwcTcpHandlerInit true) newfd add f.world.peers.length }
        exact ⟨client, _, es, _, hes, rfl, rfl, rfl, rfl, fun _ _ => ⟨0, rfl⟩⟩
      · rw [List.getElem?_append_right (Nat.le_of_lt hi), List.getElem?_eq_none (by simp; omega)]
        rw [List.getElem?_eq_none (Nat.le_of_lt hi)] at halone
        exact halone

theorem serve_turn {i : Nat} {p : Peer} {t : Turn} (hp : f.world.peers[i]? = some p)
    (h : f.serve (f.world.take i t) i = some f') : ∃ l l', f.lines[i]? = some l ∧
      l.served p.session t.peer.session = some l' ∧
        f' = { world := f.world.take i t, lines := f.lines.set i l' } := by
  unfold serve at h
  split at h
  · next l p' q hl hp' hq =>
    rw [hp] at hp'
    cases hp'
    have hset : (f.world.take i t).peers[i]? = some t.peer :=
      List.getElem?_set_self (List.getElem?_eq_some_iff.mp hp).1
    rw [hset] at hq
    cases hq
    obtain ⟨l', hl', rfl⟩ := Option.map_eq_some_iff.mp h
    exact ⟨l, l', hl, hl', rfl⟩
  · cases h

/-- What leads to an accepted connection. -/
theorem Isolated.peer (h : f.Isolated) {i : Nat} {p : Peer} (hp : f.world.peers[i]? = some p)
    {l : Line} (hl : f.lines[i]? = some l) : l.Alone (f.world.status = .running) (some p) :=
  hp ▸ h.alone i l hl

/-- The workers of a server do not run. -/
theorem Isolated.workers (h : f.Isolated) {i : Nat} {p : Peer} (hp : f.world.peers[i]? = some p) :
    p.workers = false := by
  have hi := (List.getElem?_eq_some_iff.mp hp).1
  obtain ⟨l, hl⟩ : ∃ l, f.lines[i]? = some l :=
    ⟨_, List.getElem?_eq_getElem (Nat.lt_of_lt_of_le hi h.accepted)⟩
  obtain ⟨_, _, _, _, -, hattends⟩ := h.peer hp hl
  exact hattends.workers

theorem Isolated.world (h : f.Isolated) {ev : WorldEvent} (hw : worldStep f.world ev = some w)
    (hrelay : f.relay w ev = some f') : f'.Isolated := by
  unfold worldStep at hw
  split at hw
  · cases hw
  · next hrunning =>
    have hrun : f.world.status = .running := not_not.mp hrunning
    cases ev with
    | accept newfd add recvBuff stale =>
      rw [h.mode] at hw
      cases hw
      simp only [relay] at hrelay
      split at hrelay
      · next hnew =>
        cases hrelay
        exact h.accept hnew
      · cases hrelay
    | input i a =>
      dsimp only at hw
      split at hw
      · next p hp =>
        split at hw
        · next henabled =>
          cases hw
          obtain ⟨l, l', hl, hserved, rfl⟩ := serve_turn hp hrelay
          have halone : l.Alone True (some p) := (h.peer hp hl).mono fun _ => hrun
          exact h.turn (List.getElem?_eq_some_iff.mp hp).1 hrun
            (halone.input henabled.1 henabled.2 i hserved)
        · cases hw
      · cases hw
    | output i soError envs =>
      dsimp only at hw
      split at hw
      · next p hp =>
        split at hw
        · next harmed =>
          cases hw
          obtain ⟨l, l', hl, hserved, rfl⟩ := serve_turn hp hrelay
          have halone : l.Alone True (some p) := (h.peer hp hl).mono fun _ => hrun
          exact h.turn (List.getElem?_eq_some_iff.mp hp).1 hrun
            (halone.output harmed i soError envs hserved)
        · cases hw
      · cases hw
    | tick i envs =>
      dsimp only at hw
      split at hw
      · next p hp =>
        rw [h.workers hp, if_neg (by decide)] at hw
        cases hw
      · cases hw
    | stat i now =>
      dsimp only at hw
      split at hw
      · next p hp =>
        rw [h.workers hp, if_neg (by decide)] at hw
        cases hw
      · cases hw
    | stop =>
      cases hw
      cases hrelay
      exact ⟨h.mode, h.accepted, fun i l hl => (h.alone i l hl).mono fun hstopped => by
        cases hstopped⟩

theorem Isolated.step (h : f.Isolated) {e : FleetEvent} (hstep : f.step e = some f') :
    f'.Isolated := by
  cases e with
  | dial setup =>
    cases hstep
    exact h.dial setup
  | client i ev =>
    simp only [Fleet.step] at hstep
    split at hstep
    · next l hl =>
      obtain ⟨l', hl', rfl⟩ := Option.map_eq_some_iff.mp hstep
      exact h.client hl hl'
    · cases hstep
  | world ev =>
    obtain ⟨w, hw, hrelay⟩ := Option.bind_eq_some_iff.mp hstep
    exact h.world hw hrelay

theorem run_isolated {bandwidth : Int} {links : Links Nat} {events : List FleetEvent}
    (hrun : replay step (start bandwidth links) events = some f) : f.Isolated :=
  replay_invariant (I := fun _ => True) (fun _ _ _ _ h hstep => h.step hstep) (fun _ _ => trivial)
    (start_isolated bandwidth links) hrun

/-! ## The result -/

/--
**On each connection the server is as if it had no other client.**

In every run of a server with any number of clients, and for every connection that it has accepted:
the client, the session of the server and the bytes on the way are those of a run of an exchange.
So no package of this client is processed twice, and no ack is lost, invented or sent to another.
-/
theorem fleet_isolated (bandwidth : Int) (links : Links Nat) (events : List FleetEvent) (f : Fleet)
    (hrun : replay step (start bandwidth links) events = some f) (i : Nat) (l : Line) (p : Peer)
    (hl : f.lines[i]? = some l) (hp : f.world.peers[i]? = some p) :
    ∃ client server es o, replay exchangeStep (.start client server) es = some (l.exchange o) ∧
      o.session = p.session ∧
      (OnlyLastCut l.client.session → OnlyLastCut p.session → (l.exchange o).Conserved) := by
  obtain ⟨client, server, es, o, hes, hattends⟩ := (run_isolated hrun).peer hp hl
  refine ⟨client, server, es, o, hes, hattends.session, fun hcut hcut' => ?_⟩
  exact (run_sound hes).conserved hcut (hattends.session ▸ hcut')

/-- Two clients send a package each, and the server has read that of the second one. -/
def twoClients : List FleetEvent :=
  [.dial .sample, .client 0 (.tick [.atOne, .atOne]), .dial .sample,
    .client 1 (.tick [.atOne, .atOne]), .world (.accept 5 0 RecvBuffer.zero 0),
    .world (.accept 6 0 RecvBuffer.zero 0),
    .world (.input 1
      { call := .done samplePing
        recvTs := 2
        env := List.replicate 2 { steadyEnv with now := 2 } })]

theorem twoClients_isolated : ∃ f l p,
    replay step (start 8000 { next := fun _ => 0, prev := fun _ => 0 }) twoClients = some f ∧
      f.lines[1]? = some l ∧ f.world.peers[1]? = some p ∧ l.toClient.length = 20 ∧
      ∃ o, o.session = p.session ∧ (l.exchange o).Conserved := by
  have hview : (replay step (start 8000 { next := fun _ => 0, prev := fun _ => 0 })
      twoClients).bind (fun f => f.lines[1]?.bind fun l => f.world.peers[1]?.map fun p =>
        (l.toClient.length, decide (OnlyLastCut l.client.session), decide (OnlyLastCut p.session)))
      = some (20, true, true) := by decide +kernel
  obtain ⟨f, hf, hview⟩ := Option.bind_eq_some_iff.mp hview
  obtain ⟨l, hl, hview⟩ := Option.bind_eq_some_iff.mp hview
  obtain ⟨p, hp, hview⟩ := Option.map_eq_some_iff.mp hview
  obtain ⟨hacks, hcut, hcut'⟩ : _ ∧ _ ∧ _ := by simpa using hview
  obtain ⟨_, _, _, o, -, hsession, hconserved⟩ := fleet_isolated 8000 _ twoClients f hf 1 l p hl hp
  exact ⟨f, l, p, hf, hl, hp, hacks, o, hsession, hconserved hcut hcut'⟩

end Fleet

end Nwchecker
