import Nwchecker.Lib.Pipeline
import Nwchecker.Connection.Accounting
import Nwchecker.Connection.Answers
import Nwchecker.Connection.Segmentation

/-!
# A client and the server at the other end

The callbacks of a client and those of the server that accepted its connection, joined by the two
directions of a TCP stream. The transport delivers any number of the bytes on the way at a time, in
order, and each end takes its events at any moment.

At the level of bytes this is two parse loops with partial reads. `exchange_refines` shows that at
the level of packages it is a pipeline of requests and answers, as long as the transport cuts no
package short but the last of each end.
-/

namespace Nwchecker

open Doubles Framing Loop Machine Words

/-! ## What a callback adds -/

/-- The client's `nwc_qos_process_package` for each package in turn. -/
def processAcks (qos : NwcQosProtocol) (acks : List (List UInt8)) (recvTs : UInt32) :
    NwcQosProtocol :=
  acks.foldl (fun q ack => nwcQosProcessPackage roundDouble q (NwcQosHdr.ofBytes ack) recvTs) qos

/-- The receive path hands packages on, a server offers sends, and a client processes acks. -/
def Digests (recvTs : UInt32) (s t : Session) : Prop :=
  s.sock.sends <+: t.sock.sends ∧ t.conn.mode = s.conn.mode ∧
    ∃ fs, t.handed = s.handed ++ fs ∧
      (s.conn.mode = .client → t.conn.qos = processAcks s.conn.qos fs recvTs)

theorem Digests.refl (recvTs : UInt32) (s : Session) : Digests recvTs s s :=
  ⟨List.prefix_rfl, rfl, [], (List.append_nil _).symm, fun _ => rfl⟩

theorem Digests.trans {recvTs : UInt32} {s t u : Session} (h : Digests recvTs s t)
    (h' : Digests recvTs t u) : Digests recvTs s u := by
  obtain ⟨hsends, hmode, fs, hfs, hqos⟩ := h
  obtain ⟨hsends', hmode', gs, hgs, hqos'⟩ := h'
  refine ⟨hsends.trans hsends', hmode'.trans hmode, fs ++ gs, ?_, fun hm => ?_⟩
  · rw [hgs, hfs, List.append_assoc]
  · rw [hqos' (hmode.trans hm), hqos hm, processAcks, processAcks, processAcks, List.foldl_append]

/-- The header at `pkg_ptr` is the header of the bytes handed on. -/
theorem ofBytes_pkgBytes {p : ParseState} {pkg : NwcQosHdr}
    (h : p.session.conn.recvBuff.hdrAt p.pkgPtr = some pkg) :
    NwcQosHdr.ofBytes (p.pkgBytes pkg) = pkg := by
  unfold RecvBuffer.hdrAt at h
  split at h
  · rw [ParseState.pkgBytes, ← NwcQosHdr.ofBytes_take (Nat.le_refl qosHdrLen),
      RecvBuffer.window_take (Nat.le_add_right _ _)]
    exact Option.some.inj h
  · cases h

theorem parsePass_digests (recvTs : UInt32) (env : PassEnv) (p : ParseState) :
    (∀ p', parsePass recvTs env p = .again p' → Digests recvTs p.session p'.session) ∧
      (∀ r, parsePass recvTs env p = .leave r → Digests recvTs p.session r.session) := by
  unfold parsePass
  split
  · exact Flow.at_leave (.refl _ _)
  · split
    · exact Flow.at_leave (.refl _ _)
    · next pkg hpkg =>
      split
      · exact Flow.at_leave (.refl _ _)
      · split
        · next hm =>
          have hserver : p.session.conn.mode ≠ .client := by simp [hm]
          split
          · exact Flow.at_again (.refl _ _)
          · dsimp only
            rw [nwcIoSend_session]
            split
            · exact Flow.at_leave
                ⟨List.prefix_append _ _, rfl, _, rfl, fun h => absurd h hserver⟩
            · exact Flow.at_again
                ⟨List.prefix_append _ _, rfl, _, rfl, fun h => absurd h hserver⟩
        · refine Flow.at_again ⟨List.prefix_rfl, rfl, [p.pkgBytes pkg], rfl, fun _ => ?_⟩
          show nwcQosProcessPackage roundDouble _ pkg _ = nwcQosProcessPackage roundDouble _ _ _
          rw [ofBytes_pkgBytes hpkg]

theorem recvFinish_digests (recvTs : UInt32) (p : ParseState) :
    Digests recvTs p.session (recvFinish p).session := by
  obtain ⟨c, hsession, hmode, hqos⟩ := recvFinish_session p
  rw [hsession]
  exact ⟨List.prefix_rfl, hmode, [], (List.append_nil _).symm, fun _ => hqos⟩

/-- The bytes that an event takes off the stream. -/
def ConnEvent.reads : ConnEvent → List UInt8
  | .recv a => a.data
  | .tick _ => []
  | .stat _ => []
  | .writable _ _ => []

/-- Reading takes the bytes off the stream and digests them. -/
theorem onRecv_digests (s : Session) (a : Arrival) :
    (nwcConnectionOnRecv s a).session.sock.delivered
        = s.sock.delivered ++ a.data ∧
      Digests a.recvTs s (nwcConnectionOnRecv s a).session := by
  rcases onRecv_cases s a with ⟨errno, hfin, ⟨-, heq⟩ | ⟨-, rc, heq⟩⟩ | ⟨hfin, heq⟩ |
    ⟨data, hfin, -, hdel, heq⟩
  · rw [heq, Arrival.data, hfin]
    exact ⟨(List.append_nil _).symm, .refl _ _⟩
  · rw [heq, Arrival.data, hfin]
    exact ⟨(List.append_nil _).symm, .refl _ _⟩
  · rw [heq, Arrival.data, hfin]
    exact ⟨(List.append_nil _).symm, .refl _ _⟩
  · refine ⟨?_, ?_⟩
    · rw [hdel, Arrival.data, hfin]
    · rw [heq]
      exact afterLoop_relates (Digests.refl a.recvTs) (fun _ _ _ h h' => h.trans h')
        (parsePass_digests a.recvTs) (recvFinish_digests a.recvTs) a.env (parseEntry s data)

/-- Sends and packages handed on are there for good. -/
structure Prolongs (s t : Session) : Prop where
  sends : s.sock.sends <+: t.sock.sends
  handed : s.handed <+: t.handed

theorem Prolongs.refl (s : Session) : Prolongs s s := ⟨List.prefix_rfl, List.prefix_rfl⟩

theorem onSend_grows (s : Session) (envs : List SendEnv) :
    (nwcConnectionOnSend s envs).session.sock.delivered = s.sock.delivered ∧
      Prolongs s (nwcConnectionOnSend s envs).session := by
  obtain ⟨t, ht, hways⟩ := onSend_rule
    (P := fun t => t.sock.delivered = s.sock.delivered ∧ Prolongs s t)
    (fun t env _ ht => by
      rw [tickSent, nwcIoSend_session]
      exact ⟨ht.1, ht.2.sends.trans (List.prefix_append _ _), ht.2.handed⟩)
    (fun t ht => ⟨ht.1, ht.2.sends, ht.2.handed⟩) s envs ⟨rfl, .refl s⟩
  rcases hways with ⟨rc, heq⟩ | ⟨rc, heq⟩ | heq
  · rw [heq]
    exact ht
  · rw [heq]
    exact ht
  · rw [heq]
    exact ht

/-- What an event does to the socket and to the packages handed on. -/
theorem connStep_grows {o o' : Outcome} {ev : ConnEvent} (h : connStep o ev = some o') :
    o'.session.sock.delivered = o.session.sock.delivered ++ ev.reads ∧
      Prolongs o.session o'.session := by
  obtain ⟨rc, s, rfl⟩ := connStep_from h
  cases ev with
  | recv a =>
    simp only [connStep] at h
    split at h
    · rw [← Option.some.inj h]
      obtain ⟨hdel, hsends, -, fs, hfs, -⟩ := onRecv_digests s a
      exact ⟨hdel, hsends, hfs ▸ List.prefix_append _ _⟩
    · cases h
  | tick env =>
    rw [← Option.some.inj h, ConnEvent.reads, List.append_nil]
    exact onSend_grows s env
  | stat now =>
    obtain ⟨-, rfl⟩ := connStep_stat h
    rw [ConnEvent.reads, List.append_nil]
    exact ⟨rfl, List.prefix_rfl, List.prefix_rfl⟩
  | writable soError env =>
    simp only [connStep] at h
    rw [ConnEvent.reads, List.append_nil]
    split at h
    · rw [← Option.some.inj h]
      obtain ⟨hdel, hsends, hhanded⟩ :=
        onSend_grows { s with io := (nwcTcpHandleOutput s.io soError).1 } env
      exact ⟨hdel, hsends, hhanded⟩
    · rw [← Option.some.inj h]
      exact ⟨rfl, List.prefix_rfl, List.prefix_rfl⟩

theorem accepted_isInitial {s t : Session} (h : s.sock.sends <+: t.sock.sends) :
    s.sock.accepted <+: t.sock.accepted := by
  obtain ⟨new, hnew⟩ := h
  rw [Socket.accepted, Socket.accepted, ← hnew, List.map_append, List.flatten_append]
  exact List.prefix_append _ _

/-! ## The two ends -/

/-- The two ends, and the bytes on the way between them. -/
structure Exchange where
  client : Outcome
  server : Outcome
  toServer : List UInt8
  toClient : List UInt8

inductive ExchangeEvent where
  | client (ev : ConnEvent)
  | server (ev : ConnEvent)

/--
An event at one end. What it reads comes off the front of the bytes on the way to it, and what
`send` takes joins those on the way to the other end.
-/
def endStep (o : Outcome) (ev : ConnEvent) (inbound outbound : List UInt8) :
    Option (Outcome × List UInt8 × List UInt8) :=
  if ev.reads <+: inbound then
    match connStep o ev with
    | some o' =>
      some (o', inbound.drop ev.reads.length,
        outbound ++ o'.session.sock.accepted.drop o.session.sock.accepted.length)
    | none => none
  else none

def exchangeStep (x : Exchange) : ExchangeEvent → Option Exchange
  | .client ev =>
    match endStep x.client ev x.toClient x.toServer with
    | some (o, inbound, outbound) =>
      some { x with client := o, toClient := inbound, toServer := outbound }
    | none => none
  | .server ev =>
    match endStep x.server ev x.toServer x.toClient with
    | some (o, inbound, outbound) =>
      some { x with server := o, toServer := inbound, toClient := outbound }
    | none => none

/-- What a connection is set up with. -/
structure EndSetup where
  bandwidth : Int
  recvBuff : RecvBuffer
  stale : UInt32
  io : NwcTcpHandler

/-- A connection with nothing transferred yet. -/
def EndSetup.opened (e : EndSetup) (mode : Mode) : Outcome :=
  .returned 0 (Session.opened (nwcConnectionInit mode e.bandwidth e.recvBuff e.stale) e.io)

/-- Both ends set up, and nothing on the way. -/
def Exchange.start (client server : EndSetup) : Exchange where
  client := client.opened .client
  server := server.opened .server
  toServer := []
  toClient := []

/-- What was taken at one end was delivered at the other, or is on the way. -/
def Joined (here there : Outcome) (onTheWay : List UInt8) : Prop :=
  here.session.sock.accepted = there.session.sock.delivered ++ onTheWay

/-- An event at one end keeps both directions joined. -/
theorem endStep_joined {here here' there : Outcome} {ev : ConnEvent}
    {inbound outbound inbound' outbound' : List UInt8} (hin : Joined there here inbound)
    (hout : Joined here there outbound)
    (h : endStep here ev inbound outbound = some (here', inbound', outbound')) :
    connStep here ev = some here' ∧ Joined there here' inbound' ∧ Joined here' there outbound' := by
  unfold endStep at h
  split at h
  · next hreads =>
    split at h
    · next o ho =>
      cases h
      obtain ⟨rest, hrest⟩ := hreads
      obtain ⟨hdel, hgrows⟩ := connStep_grows ho
      refine ⟨ho, ?_, ?_⟩
      · unfold Joined at hin ⊢
        rw [hin, hdel, ← hrest, List.drop_left' rfl, List.append_assoc]
      · unfold Joined at hout ⊢
        obtain ⟨new, hnew⟩ := accepted_isInitial hgrows.sends
        rw [← hnew, List.drop_left' rfl, hout, List.append_assoc]
    · cases h
  · cases h

/-- Both ends, whatever the transport takes of their sends. -/
structure Exchange.Sound (x : Exchange) : Prop where
  toServer : Joined x.client x.server x.toServer
  toClient : Joined x.server x.client x.toClient
  offers : OffersPings x.client.session
  client : ∀ stream, PackageStream stream → Follows (fun _ _ _ => True) stream x.client
  server : ∀ stream, PackageStream stream → Follows Paired stream x.server

theorem Exchange.start_sound (client server : EndSetup) : (start client server).Sound where
  toServer := rfl
  toClient := rfl
  offers := ⟨rfl, fun _ hr => absurd hr List.not_mem_nil⟩
  client := fun _ _ => opened_follows _ _ rfl trivial
  server := fun _ _ => opened_follows _ _ rfl ⟨rfl, .nil⟩

/-- One event at one end, as far as it matters to the other. -/
theorem exchangeStep_cases {x x' : Exchange} {e : ExchangeEvent} (hx : x.Sound)
    (h : exchangeStep x e = some x') :
    (∃ ev, e = .client ev ∧ connStep x.client ev = some x'.client ∧ x'.server = x.server ∧
        Joined x'.client x'.server x'.toServer ∧ Joined x'.server x'.client x'.toClient) ∨
      (∃ ev, e = .server ev ∧ connStep x.server ev = some x'.server ∧ x'.client = x.client ∧
        Joined x'.client x'.server x'.toServer ∧ Joined x'.server x'.client x'.toClient) := by
  cases e with
  | client ev =>
    simp only [exchangeStep] at h
    split at h
    · next o inbound outbound hend =>
      cases h
      obtain ⟨ho, hin, hout⟩ := endStep_joined hx.toClient hx.toServer hend
      exact Or.inl ⟨ev, rfl, ho, rfl, hout, hin⟩
    · cases h
  | server ev =>
    simp only [exchangeStep] at h
    split at h
    · next o inbound outbound hend =>
      cases h
      obtain ⟨ho, hin, hout⟩ := endStep_joined hx.toServer hx.toClient hend
      exact Or.inr ⟨ev, rfl, ho, rfl, hin, hout⟩
    · cases h

theorem Exchange.Sound.step {x x' : Exchange} {e : ExchangeEvent} (hx : x.Sound)
    (h : exchangeStep x e = some x') : x'.Sound := by
  rcases exchangeStep_cases hx h with ⟨ev, -, ho, hserver, hout, hin⟩ |
    ⟨ev, -, ho, hclient, hout, hin⟩
  · have hrun : replay connStep x.client [ev] = some x'.client := replay_cons.mpr ⟨_, ho, rfl⟩
    exact ⟨hout, hin, run_offersPings hx.offers hrun,
      fun stream hst => run_onStream keeps_true hst (hx.client stream hst) hrun,
      hserver ▸ hx.server⟩
  · have hrun : replay connStep x.server [ev] = some x'.server := replay_cons.mpr ⟨_, ho, rfl⟩
    exact ⟨hout, hin, hclient ▸ hx.offers, hclient ▸ hx.client,
      fun stream hst => run_onStream keeps_paired hst (hx.server stream hst) hrun⟩

/-- Every interleaving of the events of both ends. -/
theorem run_sound {client server : EndSetup} {events : List ExchangeEvent} {x : Exchange}
    (hrun : replay exchangeStep (.start client server) events = some x) : x.Sound :=
  replay_invariant (I := fun _ => True) (fun _ _ _ _ h hstep => h.step hstep) (fun _ _ => trivial)
    (Exchange.start_sound client server) hrun

theorem exchangeStep_grows {x x' : Exchange} {e : ExchangeEvent} (hx : x.Sound)
    (h : exchangeStep x e = some x') :
    Prolongs x.client.session x'.client.session ∧ Prolongs x.server.session x'.server.session := by
  rcases exchangeStep_cases hx h with ⟨ev, -, ho, hserver, -⟩ | ⟨ev, -, ho, hclient, -⟩
  · rw [hserver]
    exact ⟨(connStep_grows ho).2, .refl _⟩
  · rw [hclient]
    exact ⟨.refl _, (connStep_grows ho).2⟩

/-! ## The packages on the way -/

/-- The transport took the sends in full or not at all, and only the last one in part. -/
def OnlyLastCut (s : Session) : Prop :=
  ∀ r ∈ (s.sock.sends.filter fun r => 0 < r.rc).dropLast, r.Full

instance (s : Session) : Decidable (OnlyLastCut s) := inferInstanceAs (Decidable (∀ r ∈ _, _))

theorem OnlyLastCut.isInitial {s : Session} (h : OnlyLastCut s) :
    s.sock.accepted <+: (sentPackages s).flatten := by
  rw [accepted_eq]
  exact Transfer.flatten_isInitial (fun r hr => (h r hr).taken_eq)
    (fun r _ => List.take_prefix _ _)

theorem OnlyLastCut.earlier {s t : Session} (h : OnlyLastCut t) (hg : Prolongs s t) :
    OnlyLastCut s := by
  obtain ⟨new, hnew⟩ := hg.sends
  intro r hr
  refine h r ?_
  rw [← hnew, List.filter_append]
  cases hnone : new.filter fun r => decide (0 < r.rc) with
  | nil =>
    rw [List.append_nil]
    exact hr
  | cons r' rs =>
    rw [List.dropLast_append_of_ne_nil (List.cons_ne_nil _ _)]
    exact List.mem_append_left _ (List.mem_of_mem_dropLast hr)

theorem sentPackages_isInitial {s t : Session} (hg : Prolongs s t) :
    sentPackages s <+: sentPackages t :=
  (hg.sends.filter _).map _

/-- A request served, with the ack if the transport took any of it. -/
def ackOutcome (req : List UInt8) (send : SendRecord) : List UInt8 × Option (List UInt8) :=
  (req, if 0 < send.rc then some send.buffer else none)

def Exchange.outcomes (x : Exchange) : List (List UInt8 × Option (List UInt8)) :=
  List.zipWith ackOutcome x.server.session.handed x.server.session.sock.sends

/--
The exchange as a pipeline. The requests on the way are the packages that the transport took from
the client and that the server has not processed, and so are the answers the other way round.
-/
def Exchange.pipeline (x : Exchange) : Pipeline.State (List UInt8) (List UInt8) where
  requests := (sentPackages x.client.session).drop x.server.session.handed.length
  outcomes := x.outcomes
  answers := (sentPackages x.server.session).drop x.client.session.handed.length
  received := x.client.session.handed

theorem IsAckOf.isFrame {req ack : List UInt8} (h : IsAckOf req ack) :
    qosFormat.IsFrame ack ∧ ack.length ≤ RECV_BUFFER_LEN := by
  have hlen := h.len
  refine ⟨⟨?_, ?_⟩, ?_⟩
  · rw [hlen]
    decide
  · rw [qosFormat_frameLen, h.length, hlen]
    rfl
  · rw [hlen]
    decide

theorem exists_request {handed : List (List UInt8)} {sends : List SendRecord}
    (h : List.Forall₂ (fun req send => IsAckOf req send.buffer) handed sends) :
    ∀ r ∈ sends, ∃ req, IsAckOf req r.buffer := by
  induction h with
  | nil => exact fun r hr => absurd hr List.not_mem_nil
  | cons hack _ ih => exact List.forall_mem_cons.mpr ⟨⟨_, hack⟩, ih⟩

/-- The outcomes, said of the requests and of the sends. -/
theorem ackOutcomes {handed : List (List UInt8)} {sends : List SendRecord}
    (h : List.Forall₂ (fun req send => IsAckOf req send.buffer) handed sends) :
    (List.zipWith ackOutcome handed sends).map Prod.fst = handed ∧
      (List.zipWith ackOutcome handed sends).filterMap Prod.snd
        = (sends.filter fun r => 0 < r.rc).map SendRecord.buffer ∧
      ∀ o ∈ List.zipWith ackOutcome handed sends, ∀ ack ∈ o.2, IsAckOf o.1 ack := by
  induction h with
  | nil => exact ⟨rfl, rfl, fun _ ho => absurd ho List.not_mem_nil⟩
  | @cons req send handed sends hack _ ih =>
    obtain ⟨hfst, hsnd, hall⟩ := ih
    rw [List.zipWith_cons_cons]
    refine ⟨by rw [List.map_cons, hfst]; rfl, ?_, List.forall_mem_cons.mpr ⟨?_, hall⟩⟩
    · by_cases hrc : 0 < send.rc
      · rw [List.filterMap_cons_some (f := Prod.snd) (b := send.buffer) (if_pos hrc), hsnd,
          List.filter_cons_of_pos (by simpa using hrc), List.map_cons]
      · rw [List.filterMap_cons_none (f := Prod.snd) (if_neg hrc), hsnd,
          List.filter_cons_of_neg (by simpa using hrc)]
    · intro ack hmem
      by_cases hrc : 0 < send.rc
      · rw [ackOutcome, if_pos hrc] at hmem
        cases hmem
        exact hack
      · rw [ackOutcome, if_neg hrc] at hmem
        cases hmem

/-- An outcome on the stream, whichever it is. -/
theorem OnStream.session {R : Mode → List (List UInt8) → List SendRecord → Prop} {o : Outcome}
    (h : OnStream R o) : (∃ r, InOrder o.session r) ∧ o.session.Satisfies R := by
  cases o with
  | returned rc s =>
    obtain ⟨hord, -, hk⟩ := h
    exact ⟨⟨_, hord⟩, hk⟩
  | closed rc s => exact h
  | inLoop s => exact h
  | wild s => exact h.elim

variable {x : Exchange}

/-- What has been delivered to the server is a part of the packages of the client. -/
theorem Exchange.Sound.requests (hx : x.Sound) (hcut : OnlyLastCut x.client.session) :
    PackageStream (sentPackages x.client.session) ∧
      x.server.session.sock.delivered <+: (sentPackages x.client.session).flatten := by
  refine ⟨fun f hf => ?_, ?_⟩
  · obtain ⟨r, hr, rfl⟩ := List.mem_map.mp hf
    exact (hx.offers.pings r (List.mem_of_mem_filter hr)).isFrame
  · have hjoined := hx.toServer
    unfold Joined at hjoined
    exact List.IsPrefix.trans (hjoined ▸ List.prefix_append _ _) hcut.isInitial

/-- The server has processed the first packages of the client, and offered an ack to each. -/
theorem Exchange.Sound.served (hx : x.Sound) (hcut : OnlyLastCut x.client.session) :
    x.server.session.handed <+: sentPackages x.client.session ∧
      List.Forall₂ (fun req send => IsAckOf req send.buffer) x.server.session.handed
        x.server.session.sock.sends := by
  obtain ⟨hst, hp⟩ := hx.requests hcut
  obtain ⟨⟨r, hord⟩, -, hpair⟩ := (hx.server _ hst hp).session
  exact ⟨hord.handed_isInitial hst hp, hpair⟩

/-- The same for the acks. -/
theorem Exchange.Sound.acks (hx : x.Sound) (hcut : OnlyLastCut x.client.session)
    (hcut' : OnlyLastCut x.server.session) :
    PackageStream (sentPackages x.server.session) ∧
      x.client.session.sock.delivered <+: (sentPackages x.server.session).flatten := by
  refine ⟨fun f hf => ?_, ?_⟩
  · obtain ⟨r, hr, rfl⟩ := List.mem_map.mp hf
    obtain ⟨req, hack⟩ := exists_request (hx.served hcut).2 r (List.mem_of_mem_filter hr)
    exact hack.isFrame
  · have hjoined := hx.toClient
    unfold Joined at hjoined
    exact List.IsPrefix.trans (hjoined ▸ List.prefix_append _ _) hcut'.isInitial

theorem Exchange.Sound.received (hx : x.Sound) (hcut : OnlyLastCut x.client.session)
    (hcut' : OnlyLastCut x.server.session) :
    x.client.session.handed <+: sentPackages x.server.session := by
  obtain ⟨hst, hp⟩ := hx.acks hcut hcut'
  obtain ⟨⟨r, hord⟩, -⟩ := (hx.client _ hst hp).session
  exact hord.handed_isInitial hst hp

/-! ## The refinement -/

theorem Exchange.Sound.outcomes_map (hx : x.Sound) (hcut : OnlyLastCut x.client.session) :
    x.outcomes.map Prod.fst = x.server.session.handed ∧
      x.outcomes.filterMap Prod.snd = sentPackages x.server.session :=
  have h := ackOutcomes (hx.served hcut).2
  ⟨h.1, h.2.1⟩

/-- The history of the pipeline. -/
def Exchange.history (x : Exchange) (hx : x.Sound) (hcut : OnlyLastCut x.client.session)
    (hcut' : OnlyLastCut x.server.session) : Pipeline.History IsAckOf where
  sent := sentPackages x.client.session
  outcomes := x.outcomes
  received := x.client.session.handed
  served_isInitial := (hx.outcomes_map hcut).1 ▸ (hx.served hcut).1
  received_isInitial := (hx.outcomes_map hcut).2 ▸ hx.received hcut hcut'
  answers := (ackOutcomes (hx.served hcut).2).2.2

theorem Exchange.history_state (hx : x.Sound) (hcut : OnlyLastCut x.client.session)
    (hcut' : OnlyLastCut x.server.session) :
    (x.history hx hcut hcut').state = x.pipeline := by
  obtain ⟨hfst, hsnd⟩ := hx.outcomes_map hcut
  have hlen : x.outcomes.length = x.server.session.handed.length := by
    rw [← hfst, List.length_map]
  show Pipeline.State.mk ((sentPackages x.client.session).drop x.outcomes.length) x.outcomes
    ((x.outcomes.filterMap Prod.snd).drop x.client.session.handed.length)
    x.client.session.handed = x.pipeline
  rw [hlen, hsnd]
  rfl

theorem outcomes_isInitial {x' : Exchange} (hg : Prolongs x.server.session x'.server.session)
    (hlen : x.server.session.handed.length = x.server.session.sock.sends.length) :
    x.outcomes <+: x'.outcomes := by
  obtain ⟨handed, hhanded⟩ := hg.handed
  obtain ⟨sends, hsends⟩ := hg.sends
  rw [Exchange.outcomes, Exchange.outcomes, ← hhanded, ← hsends, List.zipWith_append hlen]
  exact List.prefix_append _ _

/--
**The exchange refines the pipeline.**

In every interleaving and however the transport cuts the stream, what one event does to the packages
is some steps of the machine of requests and answers, while no package but the last one of each end
is cut short.
-/
theorem exchange_refines (client server : EndSetup) (events : List ExchangeEvent) (x x' : Exchange)
    (e : ExchangeEvent)
    (hrun : replay exchangeStep (.start client server) events = some x)
    (hstep : exchangeStep x e = some x') (hcut : OnlyLastCut x'.client.session)
    (hcut' : OnlyLastCut x'.server.session) :
    ∃ es, replay (Pipeline.step IsAckOf) x.pipeline es = some x'.pipeline := by
  have hx := run_sound hrun
  have hx' := hx.step hstep
  obtain ⟨hgc, hgs⟩ := exchangeStep_grows hx hstep
  have hc := hcut.earlier hgc
  have hs := hcut'.earlier hgs
  rw [← Exchange.history_state hx hc hs, ← Exchange.history_state hx' hcut hcut']
  exact Pipeline.History.advance
    ⟨sentPackages_isInitial hgc, outcomes_isInitial hgs (hx.served hc).2.length_eq, hgc.handed⟩

/-- An end on an established handler; a client sends one package a tick. -/
def EndSetup.sample : EndSetup where
  bandwidth := 8000
  recvBuff := RecvBuffer.zero
  stale := 0
  io := { nwcTcpHandlerInit true with state := .established }

/-- A package of the client at time one, in zeroed memory. -/
def SendEnv.atOne : SendEnv := { SendEnv.sample (.done 1316) with now := 1 }

/-- The bytes of that package. -/
def samplePing : List UInt8 := (createPackage .atOne (Session.sample .client)).2.bytes

/-- The client sends a package, and the server reads and answers it at time two. -/
def pingEvents : List ExchangeEvent :=
  [.client (.tick [.atOne, .atOne]),
    .server (.recv
      { call := .done samplePing
        recvTs := 2
        env := List.replicate 2 { steadyEnv with now := 2 } })]

/-- The server serves the request. -/
theorem ping_refines : ∃ (x x' : Exchange) (es : List (Pipeline.Event _ _)),
    replay exchangeStep (.start .sample .sample) pingEvents = some x' ∧
      replay (Pipeline.step IsAckOf) x.pipeline es = some x'.pipeline ∧
      x.pipeline.requests.length = 1 ∧ x'.pipeline.answers.length = 1 := by
  have hview : (replay exchangeStep (.start .sample .sample) pingEvents).map (fun x' =>
      (decide (OnlyLastCut x'.client.session), decide (OnlyLastCut x'.server.session),
        x'.pipeline.answers.length)) = some (true, true, 1) := by decide +kernel
  obtain ⟨x', hx', hview⟩ := Option.map_eq_some_iff.mp hview
  obtain ⟨hcut, hcut', hanswers⟩ : _ ∧ _ ∧ _ := by simpa using hview
  obtain ⟨x, hx, hstep⟩ :=
    replay_concat.mp (show replay exchangeStep _ ([_] ++ [_]) = some x' from hx')
  have hbefore : (replay exchangeStep (.start .sample .sample)
      [.client (.tick [.atOne, .atOne])]).map (fun x => x.pipeline.requests.length) = some 1 := by
    decide +kernel
  rw [hx] at hbefore
  obtain ⟨es, hes⟩ := exchange_refines .sample .sample _ x x' _ hx hstep hcut hcut'
  exact ⟨x, x', es, hx', hes, Option.some.inj hbefore, hanswers⟩

/-! ## What the refinement gives -/

theorem Exchange.dropped_eq (hx : x.Sound) (hcut : OnlyLastCut x.client.session) :
    x.pipeline.dropped = x.server.session.sock.sends.countP fun r => r.rc ≤ 0 := by
  show x.outcomes.countP (fun o => o.2.isNone) = _
  unfold Exchange.outcomes
  generalize hreqs : x.server.session.handed = handed
  generalize hacks : x.server.session.sock.sends = sends
  have hpair := (hx.served hcut).2
  rw [hreqs, hacks] at hpair
  clear hreqs hacks
  induction hpair with
  | nil => rfl
  | @cons req send handed sends _ _ ih =>
    rw [List.zipWith_cons_cons]
    by_cases hrc : 0 < send.rc
    · rw [List.countP_cons_of_neg (by simp [ackOutcome, hrc]),
        List.countP_cons_of_neg (by simpa using hrc), ih]
    · rw [List.countP_cons_of_pos (by simp [ackOutcome, hrc]),
        List.countP_cons_of_pos (by simpa using hrc), ih]

/--
Where the packages are. Each was processed by the server once and in order or is on the way to it;
each ack belongs to a package of its own, in the order of the packages; and the only acks missing
are those that `send` refused.
-/
structure Exchange.Conserved (x : Exchange) : Prop where
  served : x.server.session.handed <+: sentPackages x.client.session
  acks : ∃ reqs, reqs.Sublist x.server.session.handed ∧
    List.Forall₂ IsAckOf reqs x.client.session.handed
  balance : (sentPackages x.client.session).length
    = x.client.session.handed.length + x.pipeline.answers.length
      + (x.server.session.sock.sends.countP fun r => r.rc ≤ 0) + x.pipeline.requests.length
  /-- When no ack was refused, the acks are those of the first packages. -/
  paired : (∀ r ∈ x.server.session.sock.sends, 0 < r.rc) →
    List.Forall₂ IsAckOf
      ((sentPackages x.client.session).take x.client.session.handed.length) x.client.session.handed

theorem Exchange.Sound.conserved (hx : x.Sound) (hcut : OnlyLastCut x.client.session)
    (hcut' : OnlyLastCut x.server.session) : x.Conserved := by
  have hord := (x.history hx hcut hcut').ordered
  have hsent := (x.history hx hcut hcut').state_sent
  rw [Exchange.history_state] at hord hsent
  have hdropped := Exchange.dropped_eq hx hcut
  obtain ⟨reqs, hsub, hacks⟩ := hord.received_answer
  have hbalance := hord.balance
  rw [hsent, hdropped] at hbalance
  refine ⟨(hx.served hcut).1, ⟨reqs, ?_, hacks⟩, hbalance, fun hall => ?_⟩
  · rw [← (hx.outcomes_map hcut).1]
    exact hsub
  · have hpaired := hord.paired (hdropped.trans (List.countP_eq_zero.mpr fun r hr => by
      simpa using hall r hr))
    rw [hsent] at hpaired
    exact hpaired

/--
**No package is processed twice, and no ack is invented, lost or taken for another one.**

At every moment of every interleaving, however the transport cuts the two streams, while no package
but the last one of each end is cut short.
-/
theorem exchange_conserves (client server : EndSetup) (events : List ExchangeEvent) (x : Exchange)
    (hrun : replay exchangeStep (.start client server) events = some x)
    (hcut : OnlyLastCut x.client.session) (hcut' : OnlyLastCut x.server.session) : x.Conserved :=
  (run_sound hrun).conserved hcut hcut'

/-- And the client reads the ack at time three. -/
def pongEvents : List ExchangeEvent :=
  pingEvents
    ++ [.client (.recv
          { call := .done (ackPackage 2 (NwcQosHdr.ofBytes samplePing)
              { steadyEnv with now := 2 }).bytes
            recvTs := 3
            env := List.replicate 2 { steadyEnv with now := 3 } })]

theorem pong_conserved : ∃ x, replay exchangeStep (.start .sample .sample) pongEvents = some x ∧
    x.client.session.handed.length = 1 ∧ x.Conserved := by
  have hview : (replay exchangeStep (.start .sample .sample) pongEvents).map (fun x =>
      (decide (OnlyLastCut x.client.session), decide (OnlyLastCut x.server.session),
        x.client.session.handed.length)) = some (true, true, 1) := by decide +kernel
  obtain ⟨x, hx, hview⟩ := Option.map_eq_some_iff.mp hview
  obtain ⟨hcut, hcut', hhanded⟩ : _ ∧ _ ∧ _ := by simpa using hview
  exact ⟨x, hx, hhanded, exchange_conserves .sample .sample _ x hx hcut hcut'⟩

end Nwchecker
