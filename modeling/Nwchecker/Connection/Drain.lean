import Nwchecker.Connection.Acknowledged

/-!
# What is on the way arrives

Nothing in the two ends can keep a package from being acknowledged once the transport takes the
sends in full: wherever an interleaving has left the streams, reading what is on the way leads to a
state in which every package that was sent has its ack (`exchange_settles`).

`can_send` has to be set at the server, for a clear flag keeps the parse loop where it is.
-/

namespace Nwchecker

open Words Framing Loop Machine

/-! ## One call -/

variable {R : Mode → List (List UInt8) → List SendRecord → Prop} {stream : List (List UInt8)}
  {D : List UInt8} {n : Nat} {p : ParseState}

/-- An end that can answer, and whose sends went through so far. -/
structure Clear (s : Session) : Prop where
  canSend : s.conn.mode = .server → s.io.canSend = true
  full : AllFull s

/-- With a socket that takes the acks, a pass gets shorter of a package or leaves at the rest. -/
theorem clear_pass (hR : Keeps R) (hst : PackageStream stream) (hp : D <+: stream.flatten)
    (recvTs : UInt32) {env : PassEnv} (henv : nwcTcpHandlerSendRc env.call = ackLen)
    (h : OnTrack R D n p) (hclear : Clear p.session) :
    (∃ p', parsePass recvTs env p = .again p' ∧ OnTrack R D n p' ∧ Clear p'.session ∧
        p'.todo.length + qosHdrLen ≤ p.todo.length) ∨
      parsePass recvTs env p = .leave (.drained p) ∧ ¬qosFormat.Complete p.todo := by
  by_cases ha : Accepted p.todo
  · left
    have hc := h.complete_of_accepted hst hp ha
    have hle := hc.2
    have hhdr := qosFormat_frameLen p.todo
    have hshorter : ∀ t : Session, t.conn.recvBuff = p.session.conn.recvBuff →
        (ParseState.advance { p with session := t } (NwcQosHdr.ofBytes p.todo)).todo.length
          + qosHdrLen ≤ p.todo.length := by
      intro t ht
      rw [(todo_advance h.inside hc ht).2, List.length_drop]
      omega
    cases hm : p.session.conn.mode with
    | client =>
      refine ⟨_, parsePass_client h.inside hm ha, h.clientDone hR hc hm, ⟨fun hm' => ?_,
        hclear.full⟩, hshorter _ rfl⟩
      exact absurd (hm.symm.trans hm') (by decide)
    | server =>
      have hcan := hclear.canSend hm
      have hsoft : ¬HardError env.call := by
        rintro ⟨hneg, -⟩
        rw [henv] at hneg
        exact absurd hneg (by decide)
      refine ⟨serverDone recvTs env p, ?_, h.serverDone hR hc hm, ⟨fun _ => ?_, ?_⟩,
        hshorter _ (by rw [serverSent_conn])⟩
      · rw [parsePass_server recvTs env h.inside hm hcan ha, if_neg hsoft]
      · show (serverSent recvTs env p).io.canSend = true
        rw [serverSent_canSend, hcan, henv]
        rfl
      · show AllFull (serverSent recvTs env p)
        rw [serverSent, nwcIoSend_session]
        refine List.forall_mem_append.mpr ⟨hclear.full, List.forall_mem_singleton.mpr ?_⟩
        rw [SendRecord.Full, henv, (ackPackage_isAckOf recvTs p.todo env).len]
  · exact Or.inr ⟨parsePass_drained h.inside ha, fun hc => ha (Or.inl hc)⟩

/-- The loop of one call leaves by the `break` in front of the rest. -/
theorem clear_passes (hR : Keeps R) (hst : PackageStream stream) (hp : D <+: stream.flatten)
    (recvTs : UInt32) {envs : List PassEnv}
    (henvs : ∀ env ∈ envs, nwcTcpHandlerSendRc env.call = ackLen)
    (hlen : RECV_BUFFER_LEN / qosHdrLen < envs.length) (h : OnTrack R D n p)
    (hclear : Clear p.session) :
    ∃ q, passes (parsePass recvTs) envs p = .leave (.drained q) ∧ OnTrack R D n q ∧
      Clear q.session ∧ ¬qosFormat.Complete q.todo := by
  have hshort : p.todo.length / qosHdrLen < envs.length :=
    Nat.lt_of_le_of_lt (Nat.div_le_div_right (Nat.le_trans h.inside.todo_le h.inside.fits)) hlen
  obtain ⟨r, hr, q, rfl, htrack, hclear', hrest⟩ := passes_leaves_with
    (P := fun q => OnTrack R D n q ∧ Clear q.session)
    (Q := fun r => ∃ q, r = ParseExit.drained q ∧ OnTrack R D n q ∧ Clear q.session ∧
      ¬qosFormat.Complete q.todo)
    (fun q => q.todo.length / qosHdrLen) (fun env q henv hq => by
      rcases clear_pass hR hst hp recvTs henv hq.1 hq.2 with ⟨q', heq, htrack, hclear', hle⟩ |
        ⟨heq, hrest⟩
      · refine Or.inl ⟨q', heq, ⟨htrack, hclear'⟩, ?_⟩
        unfold qosHdrLen at *
        omega
      · exact Or.inr ⟨_, heq, q, rfl, hq.1, hq.2, hrest⟩) henvs ⟨h, hclear⟩ hshort
  exact ⟨q, hr, htrack, hclear', hrest⟩

/-- One call on any part of what is on the way returns. -/
theorem reads_through (hR : Keeps R) (hst : PackageStream stream) {s : Session}
    (hon : OnStream R (.returned 0 s)) (hclear : Clear s) {data : List UInt8} (hne : data ≠ [])
    (hreq : data.length ≤ s.conn.recvRequest) (hp : s.sock.delivered ++ data <+: stream.flatten) :
    ∃ t, nwcConnectionOnRecv s (Arrival.sample data) = .returned 0 t ∧ Clear t := by
  obtain ⟨hord, -, hk⟩ := hon
  obtain ⟨q, hpass, htrack, hclear', hrest⟩ := clear_passes hR hst hp 0
    (fun env (henv : env ∈ List.replicate 257 steadyEnv) => by
      rw [List.eq_of_mem_replicate henv]
      rfl)
    (by rw [List.length_replicate]; decide)
    (onTrack_entry hord hk hreq) (p := parseEntry s data) ⟨hclear.canSend, hclear.full⟩
  obtain ⟨c, hfinish, hmode, -⟩ := htrack.inside.finish
  refine ⟨{ q.session with conn := c }, ?_,
    ⟨fun hm => hclear'.canSend (hmode ▸ hm), hclear'.full⟩⟩
  · rcases onRecv_cases s (Arrival.sample data) with ⟨errno, hfin, -⟩ | ⟨hfin, -⟩ |
      ⟨data', hfin, -, -, heq⟩
    · cases hfin
    · cases hfin
      exact absurd rfl hne
    · cases hfin
      rw [heq]
      show afterLoop (passes (parsePass 0) (List.replicate 257 steadyEnv) (parseEntry s data)) = _
      rw [hpass]
      exact hfinish

/-- A reader that got the whole stream has processed all of it. -/
theorem handed_all (hst : PackageStream stream) {rc : Int} {s : Session}
    (hon : OnStream R (.returned rc s)) (hall : s.sock.delivered = stream.flatten) :
    s.handed = stream := by
  obtain ⟨hord, hrest, -⟩ := hon
  obtain ⟨gs, hgs, -⟩ := hord.split hst (hall ▸ List.prefix_rfl)
  have hleft : s.conn.leftover = gs.flatten := by
    have heq := hord.eq
    rw [hall, hgs, List.flatten_append] at heq
    exact (List.append_cancel_left heq).symm
  cases gs with
  | nil => rw [hgs, List.append_nil]
  | cons g gs =>
    refine absurd ?_ hrest
    rw [hleft, List.flatten_cons]
    exact (hst g (hgs ▸ List.mem_append_right _ List.mem_cons_self)).1.complete_append _

/-! ## The two directions -/

/-- The callback has returned, and the connection is still there. -/
def Outcome.returns : Outcome → Bool
  | .returned _ _ => true
  | _ => false

theorem Outcome.returns_iff (o : Outcome) : o.returns = true ↔ ∃ rc s, o = .returned rc s := by
  cases o with
  | returned rc s => exact ⟨fun _ => ⟨rc, s, rfl⟩, fun _ => rfl⟩
  | closed rc s => simp [Outcome.returns]
  | inLoop s => simp [Outcome.returns]
  | wild s => simp [Outcome.returns]

/-- An end between two callbacks reads a part of what is on the way to it. -/
theorem end_reads (hR : Keeps R) (hst : PackageStream stream) {rc : Int} {s : Session}
    (hon : OnStream R (.returned rc s)) (hclear : Clear s) {inbound : List UInt8}
    (outbound : List UInt8) (hne : inbound ≠ [])
    (hp : s.sock.delivered ++ inbound <+: stream.flatten) :
    ∃ a t inbound' outbound',
      endStep (.returned rc s) (.recv a) inbound outbound
          = some (.returned 0 t, inbound', outbound') ∧
        Clear t ∧ inbound'.length < inbound.length ∧
        (s.conn.mode = .client → outbound' = outbound ∧ t.sock.sends = s.sock.sends) := by
  have hdel : s.sock.delivered <+: stream.flatten := (List.prefix_append _ _).trans hp
  -- there is room in the buffer, since what waits there is less than a package
  have hroom : 0 < s.conn.recvRequest := by
    have hlt := hon.1.rest_lt hst hdel hon.2.1
    rw [NwcConnection.leftover_length] at hlt
    unfold NwcConnection.recvRequest
    omega
  have hlen : 0 < inbound.length := List.length_pos_iff.mpr hne
  obtain ⟨data, hdata⟩ : ∃ data, data = inbound.take s.conn.recvRequest := ⟨_, rfl⟩
  have hdlen : data.length = min s.conn.recvRequest inbound.length := by
    rw [hdata, List.length_take]
  have hdpre : data <+: inbound := hdata ▸ List.take_prefix _ _
  obtain ⟨t, ht, hclear'⟩ := reads_through hR hst (s := s) hon hclear
    (fun h0 => by rw [h0, List.length_nil] at hdlen; omega) (by omega)
    (((List.prefix_append_right_inj _).mpr hdpre).trans hp)
  have hstep : connStep (.returned rc s) (.recv (Arrival.sample data)) = some (.returned 0 t) := by
    rw [← ht]
    exact if_pos (show data.length ≤ s.conn.recvRequest by omega)
  refine ⟨Arrival.sample data, t, inbound.drop data.length,
    outbound ++ t.sock.accepted.drop s.sock.accepted.length, ?_, hclear', ?_, fun hm => ?_⟩
  · have hreads : (ConnEvent.recv (Arrival.sample data)).reads = data := rfl
    rw [endStep, hreads, if_pos hdpre, hstep]
    rfl
  · rw [List.length_drop]
    omega
  · have hsends := (onRecv_client hm (Arrival.sample data)).2
    rw [ht] at hsends
    have hacc : t.sock.accepted = s.sock.accepted := congrArg
      (fun sends => (List.map SendRecord.taken sends).flatten) hsends
    exact ⟨by rw [hacc, List.drop_length, List.append_nil], hsends⟩

/-- Both ends are between two callbacks, and all sends went through so far. -/
structure Exchange.Ready (x : Exchange) : Prop where
  sound : x.Sound
  client : ∃ rc s, x.client = .returned rc s ∧ Clear s
  server : ∃ rc s, x.server = .returned rc s ∧ Clear s

theorem Exchange.Ready.full {x : Exchange} (h : x.Ready) :
    AllFull x.client.session ∧ AllFull x.server.session := by
  obtain ⟨rc, s, hs, hc⟩ := h.client
  obtain ⟨rc', s', hs', hc'⟩ := h.server
  rw [hs, hs']
  exact ⟨hc.full, hc'.full⟩

/-- Everything that a full sender sent was delivered, or is on the way. -/
theorem Joined.wholeStream {here there : Outcome} {onTheWay : List UInt8}
    (h : Joined here there onTheWay) (hfull : AllFull here.session) :
    there.session.sock.delivered ++ onTheWay = (sentPackages here.session).flatten := by
  unfold Joined at h
  rw [← h, accepted_eq]
  exact Transfer.flatten_of_all fun r hr => (hfull r (List.mem_of_mem_filter hr)).taken_eq

/-- An end reads. -/
def ExchangeEvent.isRecv : ExchangeEvent → Bool
  | .client (.recv _) => true
  | .server (.recv _) => true
  | _ => false

/-- The server reads what is on the way to it. -/
theorem Exchange.Ready.drain_toServer {x : Exchange} (h : x.Ready) :
    ∃ events x', (∀ e ∈ events, e.isRecv) ∧ replay exchangeStep x events = some x' ∧ x'.Ready ∧
      x'.toServer = [] ∧ x'.client = x.client := by
  induction hn : x.toServer.length using Nat.strongRecOn generalizing x with
  | _ n ih =>
    by_cases hne : x.toServer = []
    · exact ⟨[], x, List.forall_mem_nil _, rfl, h, hne, rfl⟩
    · obtain ⟨hfull, hfull'⟩ := h.full
      obtain ⟨rc, s, hs, hclear⟩ := h.server
      obtain ⟨hst, hdel⟩ := h.sound.requests hfull.onlyLastCut
      have hon := h.sound.server _ hst hdel
      have hp := h.sound.toServer.wholeStream hfull
      rw [hs] at hon hp
      obtain ⟨a, t, inbound, outbound, hend, hclear', hshorter, -⟩ :=
        end_reads keeps_paired hst hon hclear x.toClient hne (hp ▸ List.prefix_rfl)
      have hstep : exchangeStep x (.server (.recv a))
          = some { x with
              server := .returned 0 t
              toServer := inbound
              toClient := outbound } := by
        simp only [exchangeStep, hs, hend]
      obtain ⟨events, x', hreads, hrun, hready, hempty, hclient⟩ := ih inbound.length (by omega)
        (x := { x with server := .returned 0 t, toServer := inbound, toClient := outbound })
        ⟨h.sound.step hstep, h.client, ⟨0, t, rfl, hclear'⟩⟩ rfl
      exact ⟨.server (.recv a) :: events, x', List.forall_mem_cons.mpr ⟨rfl, hreads⟩,
        replay_cons.mpr ⟨_, hstep, hrun⟩, hready, hempty, hclient⟩

/-- And the client what is on the way back. -/
theorem Exchange.Ready.drain_toClient {x : Exchange} (h : x.Ready) (hto : x.toServer = []) :
    ∃ events x', (∀ e ∈ events, e.isRecv) ∧ replay exchangeStep x events = some x' ∧ x'.Ready ∧
      x'.toServer = [] ∧ x'.toClient = [] ∧
      x'.client.session.sock.sends = x.client.session.sock.sends := by
  induction hn : x.toClient.length using Nat.strongRecOn generalizing x with
  | _ n ih =>
    by_cases hne : x.toClient = []
    · exact ⟨[], x, List.forall_mem_nil _, rfl, h, hto, hne, rfl⟩
    · obtain ⟨hfull, hfull'⟩ := h.full
      obtain ⟨rc, s, hs, hclear⟩ := h.client
      obtain ⟨hst, hdel⟩ := h.sound.acks hfull.onlyLastCut hfull'.onlyLastCut
      have hon := h.sound.client _ hst hdel
      have hp := h.sound.toClient.wholeStream hfull'
      have hmode := h.sound.offers.client
      rw [hs] at hon hp hmode
      obtain ⟨a, t, inbound, outbound, hend, hclear', hshorter, hsame⟩ :=
        end_reads keeps_true hst hon hclear x.toServer hne (hp ▸ List.prefix_rfl)
      obtain ⟨hout, hsends⟩ := hsame hmode
      have hstep : exchangeStep x (.client (.recv a))
          = some { x with
              client := .returned 0 t
              toClient := inbound
              toServer := outbound } := by
        simp only [exchangeStep, hs, hend]
      obtain ⟨events, x', hreads, hrun, hready, hempty, hempty', hsends'⟩ :=
        ih inbound.length (by omega)
          (x := { x with client := .returned 0 t, toClient := inbound, toServer := outbound })
        ⟨h.sound.step hstep, ⟨0, t, rfl, hclear'⟩, h.server⟩ (hout.trans hto) rfl
      refine ⟨.client (.recv a) :: events, x', List.forall_mem_cons.mpr ⟨rfl, hreads⟩,
        replay_cons.mpr ⟨_, hstep, hrun⟩, hready, hempty, hempty', hsends'.trans ?_⟩
      rw [hs]
      exact hsends

/-- With nothing on the way every package has its ack. -/
theorem Exchange.Ready.settled {x : Exchange} (h : x.Ready) (hto : x.toServer = [])
    (hfrom : x.toClient = []) :
    List.Forall₂ IsAckOf (sentPackages x.client.session) x.client.session.handed := by
  obtain ⟨hfull, hfull'⟩ := h.full
  obtain ⟨rc, s, hs, -⟩ := h.client
  obtain ⟨rc', s', hs', -⟩ := h.server
  obtain ⟨hst, hdel⟩ := h.sound.requests hfull.onlyLastCut
  obtain ⟨hst', hdel'⟩ := h.sound.acks hfull.onlyLastCut hfull'.onlyLastCut
  have hon := h.sound.server _ hst hdel
  have hon' := h.sound.client _ hst' hdel'
  have hp := h.sound.toServer.wholeStream hfull
  have hp' := h.sound.toClient.wholeStream hfull'
  rw [hto, List.append_nil] at hp
  rw [hfrom, List.append_nil] at hp'
  have hserved : x.server.session.handed = sentPackages x.client.session := by
    rw [hs'] at hon hp ⊢
    exact handed_all hst hon hp
  have hreceived : x.client.session.handed = sentPackages x.server.session := by
    rw [hs] at hon' hp' ⊢
    exact handed_all hst' hon' hp'
  have hpair := (h.sound.served hfull.onlyLastCut).2
  rw [hreceived, hfull'.sentPackages fun r hr => by rw [buffer_length hpair r hr]; decide,
    ← hserved]
  exact List.forall₂_map_right_iff.mpr hpair

/--
**Every package can still be acknowledged.**

Wherever an interleaving has left the two ends between their callbacks, with all sends taken in full
and `can_send` set at the server, reading what is on the way leads to a state in which nothing is on
the way and the client has processed one ack for each package it has sent, in order.
-/
theorem exchange_settles (client server : EndSetup) (events : List ExchangeEvent) (x : Exchange)
    (hrun : replay exchangeStep (.start client server) events = some x)
    (hclient : ∃ rc s, x.client = .returned rc s) (hserver : ∃ rc s, x.server = .returned rc s)
    (hcan : x.server.session.io.canSend = true) (hfull : AllFull x.client.session)
    (hfull' : AllFull x.server.session) :
    ∃ more x', (∀ e ∈ more, e.isRecv) ∧ replay exchangeStep x more = some x' ∧
      x'.toServer = [] ∧ x'.toClient = [] ∧
      x'.client.session.sock.sends = x.client.session.sock.sends ∧
      List.Forall₂ IsAckOf (sentPackages x.client.session) x'.client.session.handed := by
  have hx := run_sound hrun
  have hready : x.Ready := by
    obtain ⟨rc, s, hs⟩ := hclient
    obtain ⟨rc', s', hs'⟩ := hserver
    have hmode := hx.offers.client
    rw [hs] at hfull hmode
    rw [hs'] at hfull' hcan
    refine ⟨hx, ⟨rc, s, hs, fun hm => ?_, hfull⟩, rc', s', hs', fun _ => hcan, hfull'⟩
    exact absurd (hmode.symm.trans hm) (by decide)
  obtain ⟨es, y, hreads₁, hrun₁, hy, hto, hsame⟩ := hready.drain_toServer
  obtain ⟨fs, z, hreads₂, hrun₂, hz, hto', hfrom, hsends⟩ := hy.drain_toClient hto
  rw [hsame] at hsends
  refine ⟨es ++ fs, z, List.forall_mem_append.mpr ⟨hreads₁, hreads₂⟩,
    replay_append.mpr ⟨y, hrun₁, hrun₂⟩, hto', hfrom, hsends, ?_⟩
  have hsettled := hz.settled hto' hfrom
  unfold sentPackages at hsettled ⊢
  rwa [hsends] at hsettled

/-- A package on the way. -/
theorem ping_settles : ∃ x, replay exchangeStep (.start .sample .sample)
      [.client (.tick [.atOne, .atOne])] = some x ∧ x.toServer.length = 1316 ∧
    ∃ more x', (∀ e ∈ more, e.isRecv) ∧ replay exchangeStep x more = some x' ∧
      x'.toServer = [] ∧ x'.toClient = [] ∧
      x'.client.session.sock.sends = x.client.session.sock.sends ∧
      List.Forall₂ IsAckOf (sentPackages x.client.session) x'.client.session.handed := by
  have hview : (replay exchangeStep (.start .sample .sample)
      [.client (.tick [.atOne, .atOne])]).map (fun x =>
        (x.client.returns, x.server.returns, x.server.session.io.canSend,
          decide (AllFull x.client.session), decide (AllFull x.server.session),
          x.toServer.length)) = some (true, true, true, true, true, 1316) := by
    decide +kernel
  obtain ⟨x, hx, hview⟩ := Option.map_eq_some_iff.mp hview
  obtain ⟨hclient, hserver, hcan, hfull, hfull', hlen⟩ : _ ∧ _ ∧ _ ∧ _ ∧ _ ∧ _ := by
    simpa using hview
  exact ⟨x, hx, hlen, exchange_settles .sample .sample _ x hx (x.client.returns_iff.mp hclient)
    (x.server.returns_iff.mp hserver) hcan hfull hfull'⟩

end Nwchecker
