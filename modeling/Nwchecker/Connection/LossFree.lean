import Mathlib.Tactic.Ring
import Nwchecker.Connection.Accounting

/-!
# A network without losses

The client of this file has a network that loses nothing: every package is acknowledged exactly
`R` milliseconds after it was sent, the server takes no time, and the ack is processed on arrival.
The clock counts milliseconds and does not wrap around.

`nwc_qos_stat` takes a package for lost when its age exceeds `rtt`. The estimate starts at zero and
moves an eighth of the way to `R` with every ack, so after `k` acks it is `R * (1 - (7 / 8) ^ k)`,
and never `R`. `lossFree_iff` says when nothing is counted as lost: when no pass of the workers
finds a package on the way that is older than that.
-/

namespace Nwchecker

open Machine

/-! ## The machine -/

/-- A client, the time, and the packages that the network has not brought the ack of yet. -/
structure LossFreeRun where
  session : Session
  clock : Nat
  /-- The timestamps in the packages, oldest first. -/
  flight : List Nat
  acks : Nat
  /-- How many packages the statistics have counted as lost. -/
  lost : Nat

inductive LossFreeEvent where
  | wait (ms : Nat)
  /-- The workers: `nwc_connection_stat`, then `nwc_connection_on_send`, whose passes come so many
  milliseconds one after the other. -/
  | pass (sends : List (Nat × Block (qosHdrLen + (1300 : UInt32).toNat)))
  /-- The ack of the oldest package on the way, with the timestamp of the server. -/
  | ack (timestamp : UInt32)

/-- The readings of the clock in the passes of the send loop. The transport takes all packages. -/
def sendEnvs : Nat → List (Nat × Block (qosHdrLen + (1300 : UInt32).toNat)) → List SendEnv
  | _, [] => []
  | clock, (ms, block) :: sends =>
    { now := UInt32.ofNat (clock + ms), block := block, call := .done 1316 }
      :: sendEnvs (clock + ms) sends

/-- The packages that `nwc_qos_stat` counts: those that it takes out of the queue. -/
def statLosses (qos : NwcQosProtocol) (now : UInt32) : Nat :=
  qos.sentQueue.length - (nwcQosStat qos now).1.sentQueue.length

/-- The timestamp in a package, which the server sends back. -/
def packageTimestamp (r : SendRecord) : Nat := (NwcQosHdr.ofBytes r.buffer).timestamp.toNat

/-- No ack is late at `clock`, and the clock has not wrapped around. -/
def OnTime (R clock : Nat) (flight : List Nat) : Prop :=
  clock < 4294967296 ∧ ∀ s ∈ flight, clock ≤ s + R

instance (R clock : Nat) (flight : List Nat) : Decidable (OnTime R clock flight) :=
  inferInstanceAs (Decidable (_ ∧ _))

/-- The header of the ack for the package with the timestamp `s`. -/
def promptAck (timestamp : UInt32) (s : Nat) : NwcQosHdr where
  timestamp := timestamp
  ackTimestamp := UInt32.ofNat s
  recvDelay := 0
  length := 4

def lossFreeStep (R : Nat) (l : LossFreeRun) : LossFreeEvent → Option LossFreeRun
  | .wait ms =>
    if OnTime R (l.clock + ms) l.flight then some { l with clock := l.clock + ms } else none
  | .pass sends =>
    let now := UInt32.ofNat l.clock
    match nwcConnectionOnSend (nwcConnectionStat l.session now).1 (sendEnvs l.clock sends) with
    | .returned _ t =>
      let clock := l.clock + (sends.map Prod.fst).sum
      let flight := l.flight
        ++ (t.sock.sends.drop l.session.sock.sends.length).map packageTimestamp
      if OnTime R clock flight then
        some
          { l with
            session := t
            clock := clock
            flight := flight
            lost := l.lost + statLosses l.session.conn.qos now }
      else none
    | _ => none
  | .ack timestamp =>
    match l.flight with
    | s :: flight =>
      if s + R = l.clock then
        let qos :=
          nwcQosProcessPackage id l.session.conn.qos (promptAck timestamp s) (UInt32.ofNat l.clock)
        some
          { l with
            session := { l.session with conn := { l.session.conn with qos := qos } }
            flight := flight
            acks := l.acks + 1 }
      else none
    | [] => none

/-- A client that has just been set up. -/
def LossFreeRun.start (bandwidth : Int) (recvBuff : RecvBuffer) (stale : UInt32)
    (io : NwcTcpHandler) (clock : Nat) : LossFreeRun where
  session := Session.opened (nwcConnectionInit .client bandwidth recvBuff stale) io
  clock := clock
  flight := []
  acks := 0
  lost := 0

/-- The estimate after so many acks that took `R` milliseconds each. -/
def rttAfter (R acks : Nat) : ℚ := R * (1 - (7 / 8) ^ acks)

/-- A pass of the workers finds no package on the way that is older than the estimate. -/
def NoneOlder (R : Nat) (l : LossFreeRun) : LossFreeEvent → Prop
  | .pass _ => l.session.conn.qos.lastStatTs ≠ 0 →
      ∀ s ∈ l.flight, ((l.clock - s : Nat) : ℚ) ≤ rttAfter R l.acks
  | _ => True

instance (R : Nat) (l : LossFreeRun) (e : LossFreeEvent) : Decidable (NoneOlder R l e) :=
  match e with
  | .pass _ => inferInstanceAs (Decidable (_ → ∀ s ∈ l.flight, _))
  | .wait _ => isTrue trivial
  | .ack _ => isTrue trivial

/-- An eighth of the way to `R`. -/
theorem rttAfter_succ (R acks : Nat) :
    rttAfter R acks * (7 / 8) + (R : ℚ) * (1 / 8) = rttAfter R (acks + 1) := by
  unfold rttAfter
  rw [pow_succ]
  ring

/-! ## The statistics -/

/-- The test of `nwc_qos_stat`. -/
def Overdue (qos : NwcQosProtocol) (now : UInt32) (e : NwcPackageEntry) : Prop :=
  qos.rtt < ((now - e.message.hdr.timestamp).toNat : ℚ)

/-- Nothing overdue: nothing is counted, and the queue stays. -/
theorem stat_of_none {qos : NwcQosProtocol} {now : UInt32}
    (h : qos.lastStatTs ≠ 0 → ∀ e ∈ qos.sentQueue, ¬Overdue qos now e) :
    (nwcQosStat qos now).1.sentQueue = qos.sentQueue ∧ statLosses qos now = 0 := by
  have hqueue : (nwcQosStat qos now).1.sentQueue = qos.sentQueue := by
    rw [stat_sentQueue]
    split
    · rfl
    · next h0 =>
      refine List.filter_eq_self.mpr fun e he => ?_
      have hnot := h h0 e he
      unfold Overdue at hnot
      simpa using hnot
  exact ⟨hqueue, by rw [statLosses, hqueue, Nat.sub_self]⟩

/-- A package that is overdue is counted. -/
theorem stat_of_overdue {qos : NwcQosProtocol} {now : UInt32} {e : NwcPackageEntry}
    (h0 : qos.lastStatTs ≠ 0) (he : e ∈ qos.sentQueue) (hover : Overdue qos now e) :
    0 < statLosses qos now := by
  rw [statLosses, stat_sentQueue, if_neg h0]
  refine Nat.sub_pos_of_lt (List.length_filter_lt_length_iff_exists.mpr ⟨e, he, ?_⟩)
  unfold Overdue at hover
  simpa using hover

/-! ## The invariant -/

/-- As long as nothing is lost: the packages on the way are those in the queue. -/
structure OnCourse (R : Nat) (l : LossFreeRun) : Prop where
  client : l.session.conn.mode = .client
  clock_pos : 0 < l.clock
  clock_lt : l.clock < 4294967296
  flight : ∀ s ∈ l.flight, 0 < s ∧ s ≤ l.clock
  queue : l.session.conn.qos.sentQueue.map (fun e => e.message.hdr.timestamp)
    = l.flight.map UInt32.ofNat
  rtt : l.session.conn.qos.rtt = rttAfter R l.acks
  lost : l.lost = 0

variable {R : Nat} {l l' : LossFreeRun}

/-- The age of a package, as the code computes it. -/
theorem age_toNat {clock s : Nat} (hclock : clock < 4294967296) (hs : s ≤ clock) :
    (UInt32.ofNat clock - UInt32.ofNat s).toNat = clock - s := by
  rw [UInt32.toNat_sub, UInt32.toNat_ofNat', UInt32.toNat_ofNat']
  omega

/-- A package in the queue is overdue when its flight takes longer than the estimate. -/
theorem OnCourse.overdue_iff (h : OnCourse R l) :
    (∃ e ∈ l.session.conn.qos.sentQueue, Overdue l.session.conn.qos (UInt32.ofNat l.clock) e) ↔
      ∃ s ∈ l.flight, rttAfter R l.acks < ((l.clock - s : Nat) : ℚ) := by
  have hage : ∀ s ∈ l.flight, (UInt32.ofNat l.clock - UInt32.ofNat s).toNat = l.clock - s :=
    fun s hs => age_toNat h.clock_lt (h.flight s hs).2
  constructor
  · rintro ⟨e, he, hover⟩
    have hmem : e.message.hdr.timestamp ∈ l.flight.map UInt32.ofNat := by
      rw [← h.queue]
      exact List.mem_map_of_mem he
    obtain ⟨s, hs, hts⟩ := List.mem_map.mp hmem
    refine ⟨s, hs, ?_⟩
    rw [Overdue, ← hts, hage s hs, h.rtt] at hover
    exact hover
  · rintro ⟨s, hs, hover⟩
    have hmem : UInt32.ofNat s ∈ l.session.conn.qos.sentQueue.map
        (fun e => e.message.hdr.timestamp) := by
      rw [h.queue]
      exact List.mem_map_of_mem hs
    obtain ⟨e, he, hts⟩ := List.mem_map.mp hmem
    refine ⟨e, he, ?_⟩
    rw [Overdue, hts, hage s hs, h.rtt]
    exact hover

theorem OnCourse.wait (h : OnCourse R l) {ms : Nat}
    (hstep : lossFreeStep R l (.wait ms) = some l') :
    OnCourse R l' := by
  simp only [lossFreeStep] at hstep
  split at hstep
  · next hon =>
    cases hstep
    exact ⟨h.client, Nat.add_pos_left h.clock_pos ms, hon.1,
      fun s hs => ⟨(h.flight s hs).1, Nat.le_add_right_of_le (h.flight s hs).2⟩, h.queue, h.rtt,
      h.lost⟩
  · cases hstep

/-- An ack for the package at the front of the queue. -/
theorem processPackage_front {qos : NwcQosProtocol} {pkg : NwcQosHdr} {e : NwcPackageEntry}
    {queue : List NwcPackageEntry} (h0 : pkg.ackTimestamp ≠ 0) (heq : qos.sentQueue = e :: queue)
    (hts : e.message.hdr.timestamp = pkg.ackTimestamp) (recvTs : UInt32) :
    (nwcQosProcessPackage id qos pkg recvTs).sentQueue = queue ∧
      (nwcQosProcessPackage id qos pkg recvTs).rtt = qos.rtt * (7 / 8) +
        (((recvTs - pkg.ackTimestamp).toNat : ℚ) - (pkg.recvDelay.toNat : ℚ)) * (1 / 8) := by
  have hget : nwcQosGetPkgEntry qos.sentQueue pkg.ackTimestamp = some e := by
    rw [heq, nwcQosGetPkgEntry, List.find?_cons_of_pos (by simpa using hts)]
  unfold nwcQosProcessPackage
  rw [if_neg h0, hget]
  refine ⟨?_, rfl⟩
  show qos.sentQueue.eraseP _ = queue
  rw [heq, List.eraseP_cons_of_pos (by simpa using hts)]

/-- The ack of the oldest package finds it at the front of the queue. -/
theorem OnCourse.ack (h : OnCourse R l) {timestamp : UInt32}
    (hstep : lossFreeStep R l (.ack timestamp) = some l') : OnCourse R l' := by
  simp only [lossFreeStep] at hstep
  split at hstep
  · next s flight hflight =>
    split at hstep
    · next hdue =>
      cases hstep
      obtain ⟨hpos, hle⟩ := h.flight s (by rw [hflight]; exact List.mem_cons_self)
      have hqueue := h.queue
      rw [hflight, List.map_cons] at hqueue
      obtain ⟨e, queue, heq, hts, hrest⟩ := List.map_eq_cons_iff.mp hqueue
      have hne : UInt32.ofNat s ≠ 0 := by
        intro hz
        have hz' := congrArg UInt32.toNat hz
        have hlt := h.clock_lt
        rw [UInt32.toNat_ofNat', Nat.mod_eq_of_lt (by omega)] at hz'
        exact absurd hz' (Nat.ne_of_gt hpos)
      have hsample : (UInt32.ofNat l.clock - UInt32.ofNat s).toNat = R := by
        rw [age_toNat h.clock_lt hle]
        omega
      have hfront : e.message.hdr.timestamp = (promptAck timestamp s).ackTimestamp := hts
      obtain ⟨hqueue', hrtt⟩ := processPackage_front hne heq hfront (UInt32.ofNat l.clock)
      refine ⟨h.client, h.clock_pos, h.clock_lt, fun x hx => h.flight x ?_, ?_, ?_, h.lost⟩
      · rw [hflight]
        exact List.mem_cons_of_mem s hx
      · rw [hqueue']
        exact hrest
      · rw [hrtt, h.rtt, ← rttAfter_succ]
        show _ + (((UInt32.ofNat l.clock - UInt32.ofNat s).toNat : ℚ) - 0) * (1 / 8) = _
        rw [hsample, sub_zero]
    · cases hstep
  · cases hstep

/-! ### A pass of the workers -/

/-- The passes of the send loop read the clock between its start and its end. -/
theorem sendEnvs_now {sends : List (Nat × Block (qosHdrLen + (1300 : UInt32).toNat))}
    {clock : Nat} : ∀ env ∈ sendEnvs clock sends,
      ∃ t, env.now = UInt32.ofNat t ∧ clock ≤ t ∧ t ≤ clock + (sends.map Prod.fst).sum := by
  induction sends generalizing clock with
  | nil => exact fun env henv => absurd henv List.not_mem_nil
  | cons send sends ih =>
    obtain ⟨ms, block⟩ := send
    intro env henv
    rw [List.map_cons, List.sum_cons]
    rcases List.mem_cons.mp henv with rfl | henv
    · exact ⟨clock + ms, rfl, by omega, by omega⟩
    · obtain ⟨t, hnow, hle, hle'⟩ := ih env henv
      exact ⟨t, hnow, by omega, by omega⟩

/-- After a client has sent `new`, all of it by `last`: it waits in the queue. -/
structure Queued (last : Nat) (s : Session) (new : List SendRecord) (t : Session) : Prop where
  client : t.conn.mode = .client
  sends : t.sock.sends = s.sock.sends ++ new
  queue : t.conn.qos.sentQueue.map (fun e => e.message.hdr.timestamp)
    = s.conn.qos.sentQueue.map (fun e => e.message.hdr.timestamp)
      ++ (new.map packageTimestamp).map UInt32.ofNat
  rtt : t.conn.qos.rtt = s.conn.qos.rtt
  times : ∀ x ∈ new.map packageTimestamp, 0 < x ∧ x ≤ last

/-- The package says when it was sent. -/
theorem packageTimestamp_offered (env : SendEnv) (s : Session) :
    packageTimestamp (offered env s) = env.now.toNat := by
  rw [packageTimestamp, offered, NwcPackage.bytes, NwcQosHdr.ofBytes_bytes]
  rfl

theorem Queued.tickSent {last : Nat} {s t : Session} {new : List SendRecord}
    (h : Queued last s new t) {env : SendEnv} (henv : 0 < env.now.toNat ∧ env.now.toNat ≤ last) :
    Queued last s (new ++ [offered env t]) (Nwchecker.tickSent env t) where
  client := (tickSent_mode env t).trans h.client
  sends := by rw [tickSent_sends, h.sends, List.append_assoc]
  queue := by
    rw [tickSent_sentQueue, List.map_append, h.queue, List.append_assoc, List.map_append,
      List.map_append, List.map_singleton, List.map_singleton, packageTimestamp_offered,
      List.map_singleton, UInt32.ofNat_toNat]
    rfl
  rtt := by
    rw [tickSent_qos]
    exact h.rtt
  times := by
    intro x hx
    rw [List.map_append, List.map_singleton, packageTimestamp_offered] at hx
    rcases List.mem_append.mp hx with hx | hx
    · exact h.times x hx
    · rw [List.mem_singleton.mp hx]
      exact henv

/-- What a pass of the workers does: it sends packages, and counts what it finds overdue. -/
theorem OnCourse.pass (h : OnCourse R l) {sends}
    (hstep : lossFreeStep R l (.pass sends) = some l') :
    l'.lost = statLosses l.session.conn.qos (UInt32.ofNat l.clock) ∧
      (NoneOlder R l (.pass sends) → OnCourse R l') := by
  simp only [lossFreeStep] at hstep
  split at hstep
  · next rc t hret =>
    split at hstep
    · next hon =>
      cases hstep
      refine ⟨by rw [h.lost, Nat.zero_add], fun hgood => ?_⟩
      have hnone : l.session.conn.qos.lastStatTs ≠ 0 →
          ∀ e ∈ l.session.conn.qos.sentQueue,
            ¬Overdue l.session.conn.qos (UInt32.ofNat l.clock) e := by
        intro h0 e he hover
        obtain ⟨s, hs, hlt⟩ := h.overdue_iff.mp ⟨e, he, hover⟩
        exact absurd (hgood h0 s hs) (not_le.mpr hlt)
      obtain ⟨hqueue, hzero⟩ := stat_of_none hnone
      have hstart : Queued (l.clock + (sends.map Prod.fst).sum)
          (nwcConnectionStat l.session (UInt32.ofNat l.clock)).1 []
          (nwcConnectionStat l.session (UInt32.ofNat l.clock)).1 :=
        ⟨h.client, (List.append_nil _).symm, (List.append_nil _).symm, rfl,
          fun x hx => absurd hx List.not_mem_nil⟩
      have henvs : ∀ env ∈ sendEnvs l.clock sends, 0 < env.now.toNat ∧
          env.now.toNat ≤ l.clock + (sends.map Prod.fst).sum := by
        intro env henv
        obtain ⟨x, hnow, hle, hle'⟩ := sendEnvs_now env henv
        have hlt := hon.1
        have hpos := h.clock_pos
        rw [hnow, UInt32.toNat_ofNat', Nat.mod_eq_of_lt (by omega)]
        omega
      obtain ⟨t', ⟨new, hnew⟩, hways⟩ := onSend_rule_of
        (P := fun t => ∃ new, Queued (l.clock + (sends.map Prod.fst).sum)
          (nwcConnectionStat l.session (UInt32.ofNat l.clock)).1 new t)
        (fun t env henv _ ⟨new, hnew⟩ => ⟨_, hnew.tickSent henv⟩)
        (fun t ⟨new, hnew⟩ => ⟨new, hnew.client, hnew.sends, hnew.queue, hnew.rtt, hnew.times⟩)
        _ _ henvs ⟨[], hstart⟩
      obtain rfl : t' = t := by
        rw [hret] at hways
        simpa [eq_comm] using hways
      have hdrop : t'.sock.sends.drop l.session.sock.sends.length = new := by
        rw [hnew.sends]
        exact List.drop_left
      rw [hdrop] at hon ⊢
      refine ⟨hnew.client, ?_, hon.1, fun s hs => ?_, ?_, ?_, ?_⟩
      · exact Nat.add_pos_left h.clock_pos _
      · rcases List.mem_append.mp hs with hs | hs
        · exact ⟨(h.flight s hs).1, Nat.le_add_right_of_le (h.flight s hs).2⟩
        · exact hnew.times s hs
      · have hkept : (nwcConnectionStat l.session (UInt32.ofNat l.clock)).1.conn.qos.sentQueue
            = l.session.conn.qos.sentQueue := hqueue
        rw [hnew.queue, hkept, h.queue, List.map_append]
      · exact hnew.rtt.trans ((stat_rtt _ _).trans h.rtt)
      · show l.lost + statLosses l.session.conn.qos (UInt32.ofNat l.clock) = 0
        rw [h.lost, hzero]
    · cases hstep
  · cases hstep

/-! ## Runs -/

theorem OnCourse.step (h : OnCourse R l) {ev : LossFreeEvent} (hgood : NoneOlder R l ev)
    (hstep : lossFreeStep R l ev = some l') : OnCourse R l' := by
  cases ev with
  | wait ms => exact h.wait hstep
  | pass sends => exact (h.pass hstep).2 hgood
  | ack timestamp => exact h.ack hstep

/-- A package that is older than the estimate is counted. -/
theorem OnCourse.loses (h : OnCourse R l) {ev : LossFreeEvent} (hbad : ¬NoneOlder R l ev)
    (hstep : lossFreeStep R l ev = some l') : l'.lost ≠ 0 := by
  cases ev with
  | wait ms => exact absurd trivial hbad
  | pass sends =>
    simp only [NoneOlder, not_forall, not_le] at hbad
    obtain ⟨h0, s, hs, hlt⟩ := hbad
    obtain ⟨e, he, hover⟩ := h.overdue_iff.mpr ⟨s, hs, hlt⟩
    rw [(h.pass hstep).1]
    exact Nat.ne_of_gt (stat_of_overdue h0 he hover)
  | ack timestamp => exact absurd trivial hbad

/--
**When a network without losses is reported as such.**

In a run in which every package is acknowledged after `R` milliseconds, nothing is counted as lost
exactly when no pass of the workers but the first finds a package on the way that is older than
`R * (1 - (7 / 8) ^ k)`, after `k` acks.
-/
theorem lossFree_iff (R : Nat) (bandwidth : Int) (recvBuff : RecvBuffer) (stale : UInt32)
    (io : NwcTcpHandler) (clock : Nat) (h0 : 0 < clock) (hlt : clock < 4294967296)
    (events : List LossFreeEvent) (l : LossFreeRun)
    (hrun : replay (lossFreeStep R) (.start bandwidth recvBuff stale io clock) events = some l) :
    (∀ t, Visits (lossFreeStep R) (.start bandwidth recvBuff stale io clock) events t →
        t.lost = 0) ↔
      Along (lossFreeStep R) (.start bandwidth recvBuff stale io clock) events (NoneOlder R) := by
  have hstart : OnCourse R (.start bandwidth recvBuff stale io clock) := by
    refine ⟨rfl, h0, hlt, fun s hs => absurd hs List.not_mem_nil, rfl, ?_, rfl⟩
    show (0 : ℚ) = rttAfter R 0
    unfold rttAfter
    ring
  exact exact_rule (fun _ h => h.lost) (fun _ _ _ h hg hs => h.step hg hs)
    (fun _ _ _ h hb hs => h.loses hb hs) hstart hrun

/-- A client that sends one package a run, a millisecond after the clock was zero. -/
def LossFreeRun.sample : LossFreeRun :=
  .start 160 RecvBuffer.zero 0 { nwcTcpHandlerInit true with state := .established } 1

/-- One package; then the budget is spent. -/
def onePass : LossFreeEvent := .pass [(0, .zero _), (0, .zero _)]

/-- The ack arrives before the workers run again. -/
theorem promptAck_lossFree : ∃ l,
    replay (lossFreeStep 50) .sample [onePass, .wait 50, .ack 7, onePass] = some l ∧
      l.lost = 0 := by
  obtain ⟨l, hl⟩ := Option.isSome_iff_exists.mp
    (show (replay (lossFreeStep 50) .sample [onePass, .wait 50, .ack 7, onePass]).isSome by
      decide +kernel)
  have hgood : Along (lossFreeStep 50) .sample [onePass, .wait 50, .ack 7, onePass]
      (NoneOlder 50) := by decide +kernel
  exact ⟨l, hl, (lossFree_iff 50 160 RecvBuffer.zero 0
    { nwcTcpHandlerInit true with state := .established } 1 (by decide) (by decide) _ l hl).mpr
    hgood l ⟨_, List.prefix_rfl, hl⟩⟩

/-- The workers run again a millisecond later: the estimate is still zero. -/
theorem secondPass_loses : ∃ l,
    replay (lossFreeStep 50) .sample [onePass, .wait 1, onePass] = some l ∧ l.lost = 1 := by
  obtain ⟨l, hl⟩ := Option.isSome_iff_exists.mp
    (show (replay (lossFreeStep 50) .sample [onePass, .wait 1, onePass]).isSome by decide +kernel)
  have hlost : (replay (lossFreeStep 50) .sample [onePass, .wait 1, onePass]).map
      LossFreeRun.lost = some 1 := by decide +kernel
  rw [hl] at hlost
  exact ⟨l, hl, Option.some.inj hlost⟩

end Nwchecker
