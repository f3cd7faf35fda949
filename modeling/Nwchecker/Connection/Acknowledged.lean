import Nwchecker.Connection.Exchange
import Nwchecker.Connection.LossFree

/-!
# The sent queue and the packages on the way

`nwc_qos_process_package` looks an ack up by its timestamp, and packages of one millisecond have the
same one. Since acks come back in the order of the packages, the oldest entry with that timestamp is
always the right one: `queue_unacked` says that the queue is exactly the packages not acknowledged
yet. The timestamp zero is the exception, for an ack of zero is taken for no ack.
-/

namespace Nwchecker

open Doubles Machine Words

/-- The packages in the queue, as they were sent. -/
def queuedPackages (qos : NwcQosProtocol) : List (List UInt8) :=
  qos.sentQueue.map fun e => e.message.bytes

/-- A package sent when the clock of the program read zero. -/
def StampedZero (f : List UInt8) : Prop := (NwcQosHdr.ofBytes f).timestamp = 0

instance (f : List UInt8) : Decidable (StampedZero f) := inferInstanceAs (Decidable (_ = _))

/-- After `n` acks: the packages not acknowledged, behind those whose ack does not count. -/
def unacked (sent : List (List UInt8)) (n : Nat) : List (List UInt8) :=
  (sent.take n).filter (fun f => StampedZero f) ++ sent.drop n

theorem unacked_snoc {sent : List (List UInt8)} {n : Nat} (h : n ≤ sent.length)
    (f : List UInt8) : unacked (sent ++ [f]) n = unacked sent n ++ [f] := by
  rw [unacked, unacked, List.take_append_of_le_length h, List.drop_append_of_le_length h,
    List.append_assoc]

/-! ## Acks in order -/

theorem message_timestamp (e : NwcPackageEntry) :
    e.message.hdr.timestamp = (NwcQosHdr.ofBytes e.message.bytes).timestamp := by
  rw [NwcPackage.bytes, NwcQosHdr.ofBytes_bytes]

/-- The first package with that timestamp leaves the queue. -/
theorem processPackage_queued (qos : NwcQosProtocol) (pkg : NwcQosHdr) (recvTs : UInt32)
    (h0 : pkg.ackTimestamp ≠ 0) :
    queuedPackages (nwcQosProcessPackage roundDouble qos pkg recvTs)
      = (queuedPackages qos).eraseP
          (fun f => (NwcQosHdr.ofBytes f).timestamp == pkg.ackTimestamp) := by
  have herase : (queuedPackages qos).eraseP
      (fun f => (NwcQosHdr.ofBytes f).timestamp == pkg.ackTimestamp)
      = (qos.sentQueue.eraseP fun e => e.message.hdr.timestamp == pkg.ackTimestamp).map
          fun e => e.message.bytes := by
    rw [queuedPackages, List.eraseP_map]
    refine congrArg (List.map _) (congrArg (List.eraseP · _) (funext fun e => ?_))
    rw [Function.comp, ← message_timestamp]
  rw [herase, nwcQosProcessPackage, if_neg h0]
  split
  · next hnone =>
    -- nothing to take out
    rw [List.eraseP_of_forall_not fun e he => List.find?_eq_none.mp hnone e he]
    rfl
  · rfl

/-- Acks in the order of the packages take these packages out, and no others. -/
theorem processAcks_queued {reqs acks : List (List UInt8)} (h : List.Forall₂ IsAckOf reqs acks)
    (recvTs : UInt32) : ∀ {qos : NwcQosProtocol} {zeros rest : List (List UInt8)},
    queuedPackages qos = zeros ++ (reqs ++ rest) → (∀ f ∈ zeros, StampedZero f) →
    queuedPackages (processAcks qos acks recvTs)
      = zeros ++ reqs.filter (fun f => StampedZero f) ++ rest := by
  induction h with
  | nil =>
    intro qos zeros rest hq _
    rw [List.filter_nil, List.append_nil]
    exact hq
  | @cons req ack reqs acks hack _ ih =>
    intro qos zeros rest hq hzeros
    show queuedPackages
      (processAcks (nwcQosProcessPackage roundDouble qos _ recvTs) acks recvTs) = _
    by_cases hzero : StampedZero req
    · -- the ack does not count, and the package stays
      have hsame : nwcQosProcessPackage roundDouble qos (NwcQosHdr.ofBytes ack) recvTs = qos :=
        if_pos (hack.ackTimestamp.trans hzero)
      rw [hsame, @ih qos (zeros ++ [req]) rest
        (by rw [hq, List.append_assoc, List.cons_append]; rfl)
        (List.forall_mem_append.mpr ⟨hzeros, List.forall_mem_singleton.mpr hzero⟩),
        List.filter_cons_of_pos (by simpa using hzero), List.append_assoc zeros]
      rfl
    · have hne : (NwcQosHdr.ofBytes ack).ackTimestamp ≠ 0 := by
        rw [hack.ackTimestamp]
        exact hzero
      rw [List.filter_cons_of_neg (by simpa using hzero)]
      refine ih ?_ hzeros
      -- the packages in front have the timestamp zero
      have hfront : ∀ f ∈ zeros,
          ¬((NwcQosHdr.ofBytes f).timestamp == (NwcQosHdr.ofBytes ack).ackTimestamp) = true := by
        intro f hf
        rw [beq_iff_eq, show (NwcQosHdr.ofBytes f).timestamp = 0 from hzeros f hf]
        exact hne.symm
      rw [processPackage_queued qos _ recvTs hne, hq, List.eraseP_append_right _ hfront,
        List.cons_append, List.eraseP_cons_of_pos]
      rw [hack.ackTimestamp, beq_self_eq_true]

/-! ## Over a run -/

/-- The transport took every send in full. -/
def AllFull (s : Session) : Prop := ∀ r ∈ s.sock.sends, r.Full

instance (s : Session) : Decidable (AllFull s) := inferInstanceAs (Decidable (∀ r ∈ _, _))

/-- The statistics find no package overdue. -/
def NothingOverdue (x : Exchange) : ExchangeEvent → Prop
  | .client (.stat now) => statLosses x.client.session.conn.qos now = 0
  | _ => True

instance (x : Exchange) (e : ExchangeEvent) : Decidable (NothingOverdue x e) :=
  match e with
  | .client (.stat _) => inferInstanceAs (Decidable (_ = _))
  | .client (.recv _) => isTrue trivial
  | .client (.tick _) => isTrue trivial
  | .client (.writable _ _) => isTrue trivial
  | .server _ => isTrue trivial

theorem AllFull.onlyLastCut {s : Session} (h : AllFull s) : OnlyLastCut s := fun r hr =>
  h r (List.mem_of_mem_filter (List.mem_of_mem_dropLast hr))

theorem AllFull.earlier {s t : Session} (h : AllFull t) (hg : Prolongs s t) : AllFull s :=
  fun r hr =>
  h r (hg.sends.subset hr)

/-- Packages and acks are not empty, so what was taken in full was taken. -/
theorem AllFull.sentPackages {s : Session} (h : AllFull s)
    (hne : ∀ r ∈ s.sock.sends, 0 < r.buffer.length) :
    sentPackages s = s.sock.sends.map SendRecord.buffer := by
  refine congrArg (List.map _) (List.filter_eq_self.mpr fun r hr => ?_)
  have hrc : r.rc = r.buffer.length := h r hr
  have hlen := hne r hr
  exact decide_eq_true (by omega)

/-- What the queue stands for. -/
def QueueExact (s : Session) : Prop :=
  s.handed.length ≤ s.sock.sends.length ∧
    queuedPackages s.conn.qos = unacked (s.sock.sends.map SendRecord.buffer) s.handed.length

theorem QueueExact.tickSent {s : Session} (h : QueueExact s) (env : SendEnv) :
    QueueExact (tickSent env s) := by
  obtain ⟨hle, hq⟩ := h
  have hhanded : (Nwchecker.tickSent env s).handed = s.handed := by
    rw [Nwchecker.tickSent, nwcIoSend_session]
    rfl
  refine ⟨?_, ?_⟩
  · rw [hhanded, tickSent_sends, List.length_append]
    exact Nat.le_add_right_of_le hle
  · rw [hhanded, tickSent_sends, List.map_append, List.map_singleton,
      unacked_snoc (by rw [List.length_map]; exact hle), ← hq, queuedPackages,
      tickSent_sentQueue, List.map_append]
    rfl

theorem QueueExact.onSend {s : Session} (h : QueueExact s) (envs : List SendEnv) :
    QueueExact (nwcConnectionOnSend s envs).session := by
  obtain ⟨t, ht, hways⟩ := onSend_rule (P := QueueExact) (fun t env _ ht => ht.tickSent env)
    (fun t ht => ht) s envs h
  rcases hways with ⟨rc, heq⟩ | ⟨rc, heq⟩ | heq
  · rw [heq]
    exact ht
  · rw [heq]
    exact ht
  · rw [heq]
    exact ht

/-- The acks that are in order so far: the first packages have theirs. -/
def AcksInOrder (s : Session) : Prop :=
  List.Forall₂ IsAckOf ((s.sock.sends.map SendRecord.buffer).take s.handed.length) s.handed

theorem QueueExact.onRecv {s : Session} (h : QueueExact s) (hm : s.conn.mode = .client)
    (a : Arrival) (hacks : AcksInOrder (nwcConnectionOnRecv s a).session) :
    QueueExact (nwcConnectionOnRecv s a).session := by
  obtain ⟨hle, hq⟩ := h
  obtain ⟨-, -, -, fs, hfs, hqos⟩ := onRecv_digests s a
  have hsends := (onRecv_client hm a).2
  unfold AcksInOrder at hacks
  unfold QueueExact
  rw [hsends] at hacks ⊢
  generalize hsent : s.sock.sends.map SendRecord.buffer = sent at hq hacks ⊢
  have hlen : (nwcConnectionOnRecv s a).session.handed.length = s.handed.length + fs.length := by
    rw [hfs, List.length_append]
  have hle' : (nwcConnectionOnRecv s a).session.handed.length ≤ sent.length := by
    have hlength := hacks.length_eq
    rw [List.length_take] at hlength
    omega
  refine ⟨by rw [← hsent, List.length_map] at hle'; exact hle', ?_⟩
  -- the new acks are those of the packages that come next
  have hnew : List.Forall₂ IsAckOf
      ((sent.take (nwcConnectionOnRecv s a).session.handed.length).drop s.handed.length) fs := by
    have hdrop := List.forall₂_drop s.handed.length hacks
    rwa [hfs, List.drop_left' rfl, ← hfs] at hdrop
  have hfront : sent.take (nwcConnectionOnRecv s a).session.handed.length
      = sent.take s.handed.length
        ++ (sent.take (nwcConnectionOnRecv s a).session.handed.length).drop s.handed.length := by
    conv_lhs => rw [← List.take_append_drop s.handed.length
      (sent.take (nwcConnectionOnRecv s a).session.handed.length)]
    rw [List.take_take, Nat.min_eq_left (by omega)]
  have hback : sent.drop s.handed.length
      = (sent.take (nwcConnectionOnRecv s a).session.handed.length).drop s.handed.length
        ++ sent.drop (nwcConnectionOnRecv s a).session.handed.length := by
    conv_lhs => rw [← List.take_append_drop (nwcConnectionOnRecv s a).session.handed.length sent]
    rw [List.drop_append_of_le_length (by rw [List.length_take]; omega)]
  rw [unacked, hback] at hq
  rw [hqos hm, processAcks_queued hnew a.recvTs hq fun f hf => by
    simpa using (List.mem_filter.mp hf).2, unacked]
  conv_rhs => rw [hfront]
  rw [List.filter_append]

theorem Exchange.Sound.acksInOrder {x : Exchange} (hx : x.Sound) (hfull : AllFull x.client.session)
    (hfull' : AllFull x.server.session) : AcksInOrder x.client.session := by
  have hpair := (hx.served hfull.onlyLastCut).2
  have hpos : ∀ r ∈ x.server.session.sock.sends, 0 < r.rc := by
    intro r hr
    have hrc : r.rc = r.buffer.length := hfull' r hr
    have hlen := buffer_length hpair r hr
    unfold ackLen at hlen
    omega
  have hpaired := (hx.conserved hfull.onlyLastCut hfull'.onlyLastCut).paired hpos
  rwa [hfull.sentPackages fun r hr => by rw [(hx.offers.pings r hr).len]; decide] at hpaired

/-- Nothing is overdue, so the statistics leave the queue alone. -/
theorem QueueExact.stat {s : Session} (h : QueueExact s) {now : UInt32}
    (hgood : statLosses s.conn.qos now = 0) : QueueExact (nwcConnectionStat s now).1 := by
  have hqueue : (nwcQosStat s.conn.qos now).1.sentQueue = s.conn.qos.sentQueue := by
    have hsub := stat_sentQueue_sublist s.conn.qos now
    refine hsub.eq_of_length_le ?_
    have hloss : s.conn.qos.sentQueue.length
      - (nwcQosStat s.conn.qos now).1.sentQueue.length = 0 := hgood
    omega
  refine ⟨h.1, ?_⟩
  show ((nwcQosStat s.conn.qos now).1.sentQueue.map _) = _
  rw [hqueue]
  exact h.2

theorem exchangeStep_queueExact {x x' : Exchange} {e : ExchangeEvent} (hx : x.Sound)
    (h : QueueExact x.client.session) (hgood : NothingOverdue x e)
    (hstep : exchangeStep x e = some x') (hacks : AcksInOrder x'.client.session) :
    QueueExact x'.client.session := by
  rcases exchangeStep_cases hx hstep with ⟨ev, rfl, ho, -⟩ | ⟨ev, -, -, hclient, -⟩
  · obtain ⟨rc, s, hs⟩ := connStep_from ho
    have hclient := hx.offers.client
    rw [hs] at ho h hclient
    cases ev with
    | recv a =>
      simp only [connStep] at ho
      split at ho
      · rw [← Option.some.inj ho] at hacks ⊢
        exact QueueExact.onRecv h hclient a hacks
      · cases ho
    | tick env =>
      rw [← Option.some.inj ho]
      exact QueueExact.onSend h env
    | stat now =>
      rw [NothingOverdue, hs] at hgood
      obtain ⟨-, ho'⟩ := connStep_stat ho
      rw [ho']
      exact QueueExact.stat h hgood
    | writable soError env =>
      simp only [connStep] at ho
      split at ho
      · rw [← Option.some.inj ho]
        have hio : QueueExact { s with io := (nwcTcpHandleOutput s.io soError).1 } := h
        exact hio.onSend env
      · rw [← Option.some.inj ho]
        exact h
  · rw [hclient]
    exact h

/--
**The queue is what has not been acknowledged.**

In every interleaving in which the transport takes all sends in full and the statistics find nothing
overdue, the sent queue holds the packages without an ack, in the order in which they were sent,
behind those of timestamp zero, which stay for good.
-/
theorem queue_unacked (client server : EndSetup) (events : List ExchangeEvent) (x : Exchange)
    (hrun : replay exchangeStep (.start client server) events = some x)
    (hfull : AllFull x.client.session) (hfull' : AllFull x.server.session)
    (hstat : Along exchangeStep (.start client server) events NothingOverdue) :
    queuedPackages x.client.session.conn.qos
      = unacked (sentPackages x.client.session) x.client.session.handed.length := by
  have hinv : x.Sound ∧ (AllFull x.client.session → AllFull x.server.session →
      QueueExact x.client.session) := by
    refine along_invariant (P := fun x => x.Sound ∧ (AllFull x.client.session →
      AllFull x.server.session → QueueExact x.client.session)) ?_
      ⟨Exchange.start_sound client server, fun _ _ => ⟨Nat.le_refl _, rfl⟩⟩ hrun hstat
    rintro y e y' ⟨hy, hq⟩ hgood hstep
    refine ⟨hy.step hstep, fun hf hf' => ?_⟩
    obtain ⟨hgc, hgs⟩ := exchangeStep_grows hy hstep
    exact exchangeStep_queueExact hy (hq (hf.earlier hgc) (hf'.earlier hgs)) hgood hstep
      ((hy.step hstep).acksInOrder hf hf')
  obtain ⟨hx, hq⟩ := hinv
  rw [hfull.sentPackages fun r hr => by rw [(hx.offers.pings r hr).len]; decide]
  exact (hq hfull hfull').2

/-- One package acknowledged, and one sent after it. -/
theorem pong_unacked : ∃ x,
    replay exchangeStep (.start .sample .sample)
        (pongEvents ++ [.client (.tick [.atOne, .atOne]), .client (.stat 4)]) = some x ∧
      (queuedPackages x.client.session.conn.qos).length = 1 ∧
      queuedPackages x.client.session.conn.qos
        = unacked (sentPackages x.client.session) x.client.session.handed.length := by
  have hview : (replay exchangeStep (.start .sample .sample)
      (pongEvents ++ [.client (.tick [.atOne, .atOne]), .client (.stat 4)])).map (fun x =>
        (decide (AllFull x.client.session), decide (AllFull x.server.session),
          (queuedPackages x.client.session.conn.qos).length)) = some (true, true, 1) := by
    decide +kernel
  obtain ⟨x, hx, hview⟩ := Option.map_eq_some_iff.mp hview
  obtain ⟨hfull, hfull', hlen⟩ : _ ∧ _ ∧ _ := by simpa using hview
  exact ⟨x, hx, hlen, queue_unacked .sample .sample _ x hx hfull hfull' (by decide +kernel)⟩

end Nwchecker
