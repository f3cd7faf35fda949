import Nwchecker.Lib.Machine
import Nwchecker.Connection.ClientParse
import Nwchecker.Connection.Send
import Nwchecker.Udp.Handler

/-!
# The UDP client

`nwc_connection.c` on the handler of `nwc_udp_handler.c`: the callbacks of a client and its two
workers. The parse loop is the one of `Nwchecker/Connection/Recv.lean`. A client's loop asks
nothing of its handler, and what it does with any bytes is in
`Nwchecker/Connection/ClientParse.lean`.

The receive path was written for a stream, so that a datagram is parsed behind what the ones before
left in the buffer. To say whose bytes a frame is made of, the client carries along the datagrams
that have arrived and, for each byte that waits, the number of its datagram.
-/

namespace Nwchecker

open Doubles Framing Loop Words

/-! ## The state -/

/-- A frame that was processed, and the datagram of each of its bytes. -/
structure LabelledFrame where
  bytes : List UInt8
  origins : List Nat
  deriving DecidableEq

inductive ClientFate where
  | running
  /-- `nwc_connection_close` was called. -/
  | closed
  /-- The parse loop left the receive buffer. -/
  | wild
  deriving DecidableEq

/-- `struct nwc_connection` of a client with its UDP handler and socket. -/
structure UdpClient where
  fate : ClientFate
  conn : NwcConnection
  io : NwcUdpHandler
  /-- The datagrams offered to the network. -/
  sends : List SendRecord
  /-- The datagrams that have arrived, the first one first. -/
  arrived : List (List UInt8)
  /-- The datagram of each byte that waits in the receive buffer. -/
  origins : List Nat
  processed : List LabelledFrame

/-- The origins of frames that lie one behind the other. -/
def labelFrames : List (List UInt8) → List Nat → List LabelledFrame
  | [], _ => []
  | f :: fs, origins =>
    { bytes := f, origins := origins.take (qosFormat.frameLen f) }
      :: labelFrames fs (origins.drop (qosFormat.frameLen f))

namespace UdpClient

/-- A client that `nwc_client_start` has set up, whatever its memory held. -/
def start (bandwidth : Int) (recvBuff : RecvBuffer) (stale : UInt32) (fd add : Int) (eh : Nat) :
    UdpClient where
  fate := .running
  conn := nwcConnectionInit .client bandwidth recvBuff stale
  io := (nwcUdpHandlerConnect (nwcUdpHandlerInit true) 0 fd add eh).2
  sends := []
  arrived := []
  origins := []
  processed := []

/-- `nwc_connection_close` -/
def close (c : UdpClient) : UdpClient :=
  { c with io := nwcUdpHandlerClose c.io, fate := .closed }

/-! ## Receiving -/

/-- The connection for the parse loop. Which handler it has does not matter to a client. -/
def parsing (c : UdpClient) : Session := Session.opened c.conn (nwcTcpHandlerInit true)

/-- As many passes as a full buffer can need. A client asks nothing of the outside in them. -/
def quietPasses : List PassEnv :=
  List.replicate (RECV_BUFFER_LEN / qosHdrLen + 1) { now := 0, stale := 0, call := .done 0 }

/-- After the loop ended in `t`. The bytes it had in hand are of the datagrams `origins`. -/
def received (c : UdpClient) (origins : List Nat) (fate : ClientFate) (t : Session) : UdpClient :=
  { c with
    fate := fate
    conn := t.conn
    origins := origins.drop (origins.length - t.conn.rbytes)
    processed := c.processed ++ labelFrames t.handed origins }

/-- `nwc_connection_on_recv`. `none` while it is in its loop, which `onRecv_cases` excludes. -/
def onRecv (c : UdpClient) (call : SysCall (List UInt8)) (recvTs : UInt32) : Option UdpClient :=
  let r := nwcUdpHandlerRecv c.conn.recvRequest call
  -- a datagram without data passes for the end of a stream
  if r.1 ≤ 0 then some (if r.1 = -EAGAIN then c else c.close)
  else
    let origins := c.origins ++ List.replicate r.2.length c.arrived.length
    match afterLoop (passes (parsePass recvTs) quietPasses (parseEntry c.parsing r.2)) with
    | .returned _ t => some (c.received origins .running t)
    | .closed _ t => some (c.received origins .closed t)
    | .wild t => some (c.received origins .wild t)
    | .inLoop _ => none

/-! ## Sending -/

/-- A new package in the sent queue, and the package. -/
def createPackage (env : SendEnv) (c : UdpClient) : UdpClient × NwcPackage :=
  let r := nwcQosCreatePackage c.conn.qos 1300 env.block
  ({ c with conn := { c.conn with qos := r.1.stampLast env.now } },
    { r.2 with hdr := { r.2.hdr with timestamp := env.now } })

/-- `nwc_io_send`. A datagram that would block leaves `can_send` as it is. -/
def send (c : UdpClient) (buffer : List UInt8) (call : SysCall Nat) : Int × UdpClient :=
  (nwcUdpHandlerSend call,
    { c with sends := c.sends ++ [{ buffer := buffer, rc := nwcUdpHandlerSend call }] })

/-- `cur` is `cur_sentbytes`. -/
structure SendState where
  client : UdpClient
  cur : UInt32
  rc : Int

inductive SendExit where
  | done (rc : Int) (c : UdpClient)
  | closed (rc : Int) (c : UdpClient)

/-- One pass of `while (cur_sentbytes < nwc->qos.send_bandwidth)`. -/
def sendPass (env : SendEnv) (p : SendState) : Flow SendState SendExit :=
  if p.cur < p.client.conn.qos.sendBandwidth then
    let pkg := createPackage env p.client
    let r := pkg.1.send pkg.2.bytes env.call
    if r.1 ≤ 0 then
      if r.1 ≠ -EAGAIN then .leave (.closed r.1 r.2.close) else .leave (.done r.1 r.2)
    else .again { client := r.2, cur := p.cur + UInt32.ofNat (u32 r.1), rc := r.1 }
  else .leave (.done p.rc p.client)

/-- `nwc_connection_on_send`. `none` while it is in its loop. -/
def onSend (c : UdpClient) (envs : List SendEnv) : Option UdpClient :=
  if c.io.canSend then
    match c.conn.mode with
    | .client =>
      match passes sendPass envs { client := c, cur := 0, rc := 0 } with
      | .again _ => none
      | .leave (.done _ c) => some c
      | .leave (.closed _ c) => some c
    | .server => some c
  else some c

/-- `nwc_connection_stat` -/
def stat (c : UdpClient) (now : UInt32) : UdpClient :=
  { c with conn := { c.conn with qos := (nwcQosStat c.conn.qos now).1 } }

/-! ## The machine -/

inductive Event where
  /-- `nwc_udp_handle_input`, and what `recvfrom` has for it: the datagram next in line. -/
  | input (call : SysCall (List UInt8)) (recvTs : UInt32)
  /-- `nwc_udp_handle_output` -/
  | output (envs : List SendEnv)
  /-- The send worker. -/
  | tick (envs : List SendEnv)
  /-- The stat worker. -/
  | stat (now : UInt32)

/-- The datagram that a call of `recvfrom` took from the socket. -/
def datagramOf (call : SysCall (List UInt8)) : List (List UInt8) :=
  match call.final with
  | .ok d => [d]
  | .error _ => []

/-- The next event. What arrives at a client that is gone is not read any more. -/
def step (c : UdpClient) : Event → Option UdpClient
  | .input call recvTs =>
    match c.fate, nwcUdpHandleInput c.io with
    | .running, some .onRecv =>
      match c.onRecv call recvTs with
      | some c' => some { c' with arrived := c.arrived ++ datagramOf call }
      | none => none
    | .running, _ => none
    | _, _ => some { c with arrived := c.arrived ++ datagramOf call }
  | .output envs =>
    match c.fate, nwcUdpHandleOutput c.io with
    | .running, (io, some .onSend) => onSend { c with io := io } envs
    | .running, (io, _) => some { c with io := io }
    | _, _ => none
  | .tick envs => if c.fate = .running then c.onSend envs else none
  | .stat now => if c.fate = .running then some (c.stat now) else none

/-! ## What a call does -/

variable {c c' : UdpClient}

/-- What waits in the buffer, in front of the next datagram. -/
def leftover (c : UdpClient) : List UInt8 := c.conn.leftover

/-- What the next call has in hand when the datagram `d` is next in line. -/
def inHand (c : UdpClient) (d : List UInt8) : List UInt8 :=
  c.conn.leftover ++ d.take c.conn.recvRequest

/-- The origins of what the next call has in hand. -/
def inHandOrigins (c : UdpClient) (d : List UInt8) : List Nat :=
  c.origins ++ List.replicate (d.take c.conn.recvRequest).length c.arrived.length

/-- The ways a call of `nwc_connection_on_recv` goes, by the answer of `recvfrom`. -/
theorem onRecv_cases (hm : c.conn.mode = .client) (call : SysCall (List UInt8))
    (recvTs : UInt32) :
    (∃ errno, call.final = .error errno ∧
      (c.onRecv call recvTs = some c ∨ c.onRecv call recvTs = some c.close)) ∨
    (∃ d, call.final = .ok d ∧ d.take c.conn.recvRequest = [] ∧
      c.onRecv call recvTs = some c.close) ∨
    (∃ d fs rest t, call.final = .ok d ∧ d.take c.conn.recvRequest ≠ [] ∧
      cut qosFormat (c.inHand d) = (fs, rest) ∧ t.conn.mode = .client ∧
      ((¬Overflows rest ∧ t.conn.leftover = rest ∧ t.handed = fs ∧
          t.conn.qos = processAll recvTs c.conn.qos fs ∧
          c.onRecv call recvTs = some (c.received (c.inHandOrigins d) .running t)) ∨
        (Overflows rest ∧ (∃ f, t.handed = fs ++ [f] ∧
            qosFormat.frameLen f = qosFormat.frameLen rest) ∧
          c.onRecv call recvTs = some (c.received (c.inHandOrigins d) .wild t)))) := by
  rcases nwcUdpHandlerRecv_final c.conn.recvRequest call with
    ⟨d, hfin, hrecv⟩ | ⟨errno, hfin, ⟨-, hrc⟩ | ⟨-, hrc⟩⟩
  · right
    by_cases hd : d.take c.conn.recvRequest = []
    · left
      refine ⟨d, hfin, hd, ?_⟩
      rw [onRecv, hrecv, hd]
      rfl
    · right
      rcases hcut : cut qosFormat (c.inHand d) with ⟨fs, rest⟩
      have hpos : 0 < (d.take c.conn.recvRequest).length := List.length_pos_iff.mpr hd
      have hreq : (d.take c.conn.recvRequest).length ≤ c.parsing.conn.recvRequest :=
        List.length_take_le _ _
      have hlen : RECV_BUFFER_LEN / qosHdrLen < quietPasses.length := by
        rw [quietPasses, List.length_replicate]
        exact Nat.lt_succ_self _
      by_cases ho : Overflows rest
      · obtain ⟨t, f, ht, hmode, hhanded, hf⟩ :=
          clientLoop_wild (s := c.parsing) recvTs hm hreq hcut hlen ho
        refine ⟨d, fs, rest, t, hfin, hd, hcut, hmode, Or.inr ⟨ho, ⟨f, hhanded, hf⟩, ?_⟩⟩
        rw [onRecv, hrecv]
        dsimp only
        rw [if_neg (by omega), ht]
        rfl
      · obtain ⟨t, ht, hmode, hleft, hhanded, hqos⟩ :=
          clientLoop_returns (s := c.parsing) recvTs hm hreq hcut hlen ho
        refine ⟨d, fs, rest, t, hfin, hd, hcut, hmode, Or.inl ⟨ho, hleft, hhanded, hqos, ?_⟩⟩
        rw [onRecv, hrecv]
        dsimp only
        rw [if_neg (by omega), ht]
        rfl
  · left
    refine ⟨errno, hfin, Or.inl ?_⟩
    rw [onRecv, hrc, if_pos (by decide), if_pos rfl]
  · left
    refine ⟨errno, hfin, Or.inr ?_⟩
    rw [onRecv, hrc, if_pos (by decide), if_neg (by decide)]

/-- What sending and the statistics leave alone: all that has to do with receiving. -/
structure SameReceived (c c' : UdpClient) : Prop where
  mode : c'.conn.mode = c.conn.mode
  leftover : c'.conn.leftover = c.conn.leftover
  arrived : c'.arrived = c.arrived
  origins : c'.origins = c.origins
  processed : c'.processed = c.processed

theorem SameReceived.refl (c : UdpClient) : SameReceived c c := ⟨rfl, rfl, rfl, rfl, rfl⟩

theorem SameReceived.trans {c'' : UdpClient} (h : SameReceived c c') (h' : SameReceived c' c'') :
    SameReceived c c'' where
  mode := h'.mode.trans h.mode
  leftover := h'.leftover.trans h.leftover
  arrived := h'.arrived.trans h.arrived
  origins := h'.origins.trans h.origins
  processed := h'.processed.trans h.processed

/-- The client after one pass: a package made and offered to the network. -/
def sentOnce (env : SendEnv) (c : UdpClient) : UdpClient :=
  ((createPackage env c).1.send (createPackage env c).2.bytes env.call).2

/-- What every pass keeps, the callback keeps. -/
theorem onSend_rule {P : UdpClient → Prop} (hsent : ∀ env c, P c → P (sentOnce env c))
    (hclose : ∀ c, P c → P c.close) {envs : List SendEnv} (hP : P c)
    (h : c.onSend envs = some c') : P c' := by
  have hpass : ∀ env (p : SendState), P p.client →
      (∀ p', sendPass env p = .again p' → P p'.client) ∧
      (∀ r, sendPass env p = .leave r → match r with
        | .done _ t => P t
        | .closed _ t => P t) := by
    intro env p hp
    have ht := hsent env p.client hp
    unfold sendPass
    split
    · dsimp only
      split
      · split
        · exact Flow.at_leave (hclose _ ht)
        · exact Flow.at_leave ht
      · exact Flow.at_again ht
    · exact Flow.at_leave hp
  have hrule := passes_rule (I := fun _ => True)
    (fun env p p' _ hp hb => (hpass env p hp).1 p' hb)
    (fun env p r _ hp hb => (hpass env p hp).2 r hb) envs (fun _ _ => trivial)
    (s := { client := c, cur := 0, rc := 0 }) hP
  unfold onSend at h
  split at h
  · split at h
    · split at h
      · cases h
      · next rc t hp =>
        cases h
        exact hrule.2 _ hp
      · next rc t hp =>
        cases h
        exact hrule.2 _ hp
    · cases h
      exact hP
  · cases h
    exact hP

/-- What sending and the statistics keep, every event keeps that reads nothing. -/
theorem step_rule {P : UdpClient → Prop} (hsent : ∀ env c, P c → P (sentOnce env c))
    (hclose : ∀ c, P c → P c.close) (hio : ∀ c io, P c → P { c with io := io })
    (hstat : ∀ c now, P c → P (c.stat now)) {e : Event} (he : ∀ call recvTs, e ≠ .input call recvTs)
    (hP : P c) (h : c.step e = some c') : c.fate = .running ∧ P c' := by
  cases e with
  | input call recvTs => exact absurd rfl (he call recvTs)
  | output envs =>
    simp only [step] at h
    split at h
    · next hf _ => exact ⟨hf, onSend_rule hsent hclose (hio _ _ hP) h⟩
    · next hf _ =>
      cases h
      exact ⟨hf, hio _ _ hP⟩
    · cases h
  | tick envs =>
    simp only [step] at h
    split at h
    · next hf => exact ⟨hf, onSend_rule hsent hclose hP h⟩
    · cases h
  | stat now =>
    simp only [step] at h
    split at h
    · next hf =>
      cases h
      exact ⟨hf, hstat _ _ hP⟩
    · cases h

/-- The ways a step goes. -/
theorem step_cases {e : Event} (h : c.step e = some c') :
    (∃ call recvTs, e = .input call recvTs ∧
      ((c.fate = .running ∧ ∃ d, c.onRecv call recvTs = some d ∧
          c' = { d with arrived := c.arrived ++ datagramOf call }) ∨
        (c.fate ≠ .running ∧ c' = { c with arrived := c.arrived ++ datagramOf call }))) ∨
    ((∀ call recvTs, e ≠ .input call recvTs) ∧ c.fate = .running ∧ SameReceived c c') := by
  by_cases he : ∀ call recvTs, e ≠ .input call recvTs
  · have hsame := step_rule (P := SameReceived c)
      (fun env t ht => ht.trans ⟨rfl, rfl, rfl, rfl, rfl⟩)
      (fun t ht => ht.trans ⟨rfl, rfl, rfl, rfl, rfl⟩)
      (fun t io ht => ht.trans ⟨rfl, rfl, rfl, rfl, rfl⟩)
      (fun t now ht => ht.trans ⟨rfl, rfl, rfl, rfl, rfl⟩) he (SameReceived.refl c) h
    exact Or.inr ⟨he, hsame⟩
  · left
    simp only [not_forall, not_not] at he
    obtain ⟨call, recvTs, rfl⟩ := he
    refine ⟨call, recvTs, rfl, ?_⟩
    simp only [step] at h
    split at h
    · next hf _ =>
      split at h
      · next d hd =>
        cases h
        exact Or.inl ⟨hf, d, hd, rfl⟩
      · cases h
    · cases h
    · next hf _ =>
      cases h
      exact Or.inr ⟨hf, rfl⟩

/-! ## A package at a client with an empty buffer -/

variable {d : List UInt8}

theorem inHand_of_leftover_nil (h : c.leftover = []) : c.inHand d = d.take RECV_BUFFER_LEN := by
  have h0 : c.conn.rbytes = 0 := by
    rw [← NwcConnection.leftover_length]
    exact List.length_eq_zero_iff.mpr h
  show c.leftover ++ d.take c.conn.recvRequest = _
  rw [h, List.nil_append, NwcConnection.recvRequest, h0, Nat.sub_zero]

/-- The datagram is cut into itself. -/
theorem cut_inHand_package (hl : c.leftover = []) (hframe : qosFormat.IsFrame d)
    (hfits : d.length ≤ RECV_BUFFER_LEN) : cut qosFormat (c.inHand d) = ([d], []) := by
  have hone := ((parsed_nil (F := qosFormat) (l := []) (by decide)).cons hframe).eq_cut
  rw [List.append_nil] at hone
  rw [inHand_of_leftover_nil hl, List.take_of_length_le hfits]
  exact hone

/-- It is processed, unless the client is gone, and the buffer is empty again. -/
theorem step_package (hm : c.conn.mode = .client) (hl : c.leftover = [])
    (hframe : qosFormat.IsFrame d) (hfits : d.length ≤ RECV_BUFFER_LEN) {recvTs : UInt32}
    (h : c.step (.input (.done d) recvTs) = some c') :
    c'.conn.mode = .client ∧ c'.leftover = [] ∧
      (c.fate = .running → c'.conn.qos
        = nwcQosProcessPackage roundDouble c.conn.qos (NwcQosHdr.ofBytes d) recvTs) ∧
      (c.fate ≠ .running → c'.conn.qos = c.conn.qos) := by
  rcases step_cases h with ⟨_, _, hev, ⟨hrunning, x, hx, rfl⟩ | ⟨hgone, rfl⟩⟩ | ⟨hne, -⟩
  · cases hev
    rcases onRecv_cases hm (.done d) recvTs with ⟨errno, hfin, -⟩ | ⟨d', hfin, hnil, -⟩ |
      ⟨d', fs, rest, t, hfin, -, hcut, hmode, ⟨-, hleft, -, hqos, hout⟩ | ⟨ho, -⟩⟩
    · cases hfin
    · cases hfin
      -- a package has bytes, and the buffer has room for all of them
      have hall : c.inHand d = d := by
        rw [inHand_of_leftover_nil hl, List.take_of_length_le hfits]
      have hempty : c.inHand d = [] := by
        rw [inHand, hnil, List.append_nil]
        exact hl
      have hpos : 0 < d.length := Nat.lt_of_lt_of_le (by decide) hframe.1
      rw [← hall, hempty] at hpos
      exact absurd hpos (Nat.lt_irrefl 0)
    · cases hfin
      rw [cut_inHand_package hl hframe hfits] at hcut
      cases hcut
      rw [hout] at hx
      cases hx
      exact ⟨hmode, hleft, fun _ => hqos, fun hgone => absurd hrunning hgone⟩
    · cases hfin
      rw [cut_inHand_package hl hframe hfits] at hcut
      cases hcut
      exact absurd ho (by decide)
  · exact ⟨hm, hl, fun hrunning => absurd hrunning hgone, fun _ => rfl⟩
  · exact absurd rfl (hne _ _)

end UdpClient

end Nwchecker
