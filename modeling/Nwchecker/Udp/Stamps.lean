import Mathlib.Data.List.Nodup
import Nwchecker.Connection.ClientOutput
import Nwchecker.Udp.Acks

/-!
# Timestamps as the names of packages

The protocol takes the timestamp of a package for its name. While it is one, that is while no two
packages of a client have the same, no network can make the client count an ack wrongly: the second
ack of a package finds nothing with its timestamp (`distinctStamps_notOvercounted`).
-/

namespace Nwchecker

open Doubles Framing Machine

/-- The timestamp in a package offered to the network. -/
def packageStamp (r : SendRecord) : UInt32 := (NwcQosHdr.ofBytes r.buffer).timestamp

namespace UdpClient

/-- The timestamps of the packages made so far. -/
def stamps (c : UdpClient) : List UInt32 := c.sends.map packageStamp

/-- The timestamps of the packages that wait for their ack. -/
def waiting (c : UdpClient) : List UInt32 :=
  c.conn.qos.sentQueue.map fun e => e.message.hdr.timestamp

/-! ## What a client does with the packages -/

/-- From `c` to `c'` packages were made, and all that waits was made then or waited before. -/
def Issues (c c' : UdpClient) : Prop :=
  ∃ made, c'.sends = c.sends ++ made ∧ (∀ r ∈ made, IsPing r.buffer) ∧
    c'.waiting.Sublist (c.waiting ++ made.map packageStamp)

variable {c c' t : UdpClient}

theorem Issues.refl (c : UdpClient) : Issues c c := by
  refine ⟨[], (List.append_nil _).symm, fun r hr => absurd hr List.not_mem_nil, ?_⟩
  rw [List.map_nil, List.append_nil]

/-- Packages may leave the queue. -/
theorem Issues.shrink (h : Issues c t) (hsends : c'.sends = t.sends)
    (hwaiting : c'.waiting.Sublist t.waiting) : Issues c c' := by
  obtain ⟨made, hmade, hpings, hsub⟩ := h
  exact ⟨made, hsends.trans hmade, hpings, hwaiting.trans hsub⟩

/-- A new package goes to the end of the queue as it is offered. -/
theorem sentOnce_waiting (env : SendEnv) (c : UdpClient) :
    (sentOnce env c).waiting = c.waiting ++ [env.now] := by
  simp only [waiting, sentOnce, send, createPackage, nwcQosCreatePackage,
    NwcQosProtocol.stampLast, List.getLast?_append_cons, List.getLast?_singleton,
    List.dropLast_concat, List.map_append, List.map_cons, List.map_nil]

theorem createPackage_bytes (env : SendEnv) (c : UdpClient) :
    IsPing (createPackage env c).2.bytes ∧
      (NwcQosHdr.ofBytes (createPackage env c).2.bytes).timestamp = env.now := by
  refine ⟨createPackage_isPing env c.parsing, ?_⟩
  rw [NwcPackage.bytes, NwcQosHdr.ofBytes_bytes]
  rfl

theorem Issues.sentOnce (h : Issues c t) (env : SendEnv) : Issues c (sentOnce env t) := by
  obtain ⟨made, hmade, hpings, hsub⟩ := h
  obtain ⟨hping, hstamp⟩ := createPackage_bytes env t
  refine ⟨made ++ [⟨(createPackage env t).2.bytes, nwcUdpHandlerSend env.call⟩], ?_, ?_, ?_⟩
  · rw [← List.append_assoc, ← hmade]
    rfl
  · intro r hr
    rcases List.mem_append.mp hr with hr | hr
    · exact hpings r hr
    · rw [List.mem_singleton.mp hr]
      exact hping
  · have hlast : packageStamp ⟨(createPackage env t).2.bytes, nwcUdpHandlerSend env.call⟩
        = env.now := hstamp
    rw [sentOnce_waiting, List.map_append, List.map_cons, List.map_nil, hlast,
      ← List.append_assoc]
    exact hsub.append_right [env.now]

/-- The statistics take packages out. -/
theorem stat_waiting (c : UdpClient) (now : UInt32) : (c.stat now).waiting.Sublist c.waiting :=
  (stat_sentQueue_sublist c.conn.qos now).map _

/-- Reading offers nothing to the network. -/
theorem onRecv_sends {call : SysCall (List UInt8)} {recvTs : UInt32}
    (h : c.onRecv call recvTs = some c') : c'.sends = c.sends := by
  unfold onRecv at h
  dsimp only at h
  split at h
  · split at h
    · cases h
      rfl
    · cases h
      rfl
  · split at h
    · cases h
      rfl
    · cases h
      rfl
    · cases h
      rfl
    · cases h

theorem step_input_sends {call : SysCall (List UInt8)} {recvTs : UInt32}
    (h : c.step (.input call recvTs) = some c') : c'.sends = c.sends := by
  rcases step_cases h with ⟨_, _, hev, ⟨-, x, hx, rfl⟩ | ⟨-, rfl⟩⟩ | ⟨hne, -⟩
  · cases hev
    have hsends := onRecv_sends hx
    exact hsends
  · rfl
  · exact absurd rfl (hne _ _)

/-- What was offered to the network stays on record. -/
theorem step_sends {e : Event} (h : c.step e = some c') : c.sends <+: c'.sends := by
  by_cases he : ∀ call recvTs, e ≠ .input call recvTs
  · refine (step_rule (P := fun t => c.sends <+: t.sends) (fun env t ht => ?_)
      (fun _ ht => ht) (fun _ _ ht => ht) (fun _ _ ht => ht) he List.prefix_rfl h).2
    exact ht.trans (List.prefix_append _ _)
  · simp only [not_forall, not_not] at he
    obtain ⟨call, recvTs, rfl⟩ := he
    rw [step_input_sends h]

/-- An ack takes the first of the packages with its timestamp out, if it takes one. -/
theorem processPackage_waiting (qos : NwcQosProtocol) (pkg : NwcQosHdr) (recvTs : UInt32) :
    let stamp (e : NwcPackageEntry) := e.message.hdr.timestamp
    (nwcQosProcessPackage roundDouble qos pkg recvTs).sentQueue = qos.sentQueue ∨
      (nwcQosProcessPackage roundDouble qos pkg recvTs).sentQueue.map stamp
        = (qos.sentQueue.map stamp).erase pkg.ackTimestamp := by
  unfold nwcQosProcessPackage
  dsimp only
  split
  · exact Or.inl rfl
  · split
    · exact Or.inl rfl
    · rw [List.erase_eq_eraseP', List.eraseP_map]
      exact Or.inr rfl

end UdpClient

namespace UdpLink

open UdpClient

/-- What brings no datagram only makes packages, and takes some out. -/
theorem Quiet.issues {c c' : UdpClient} {e : UdpClient.Event} (hq : Quiet e)
    (hm : c.conn.mode = .client) (h : c.step e = some c') : Issues c c' := by
  by_cases he : ∀ call recvTs, e ≠ .input call recvTs
  · refine (step_rule (P := Issues c) (fun env t ht => ht.sentOnce env)
      (fun t ht => ht.shrink rfl (List.Sublist.refl _))
      (fun t io ht => ht.shrink rfl (List.Sublist.refl _))
      (fun t now ht => ht.shrink rfl (stat_waiting t now)) he (Issues.refl c) h).2
  · simp only [not_forall, not_not] at he
    obtain ⟨call, recvTs, rfl⟩ := he
    refine (Issues.refl c).shrink (step_input_sends h) ?_
    rw [waiting, input_quiet hq hm h]
    exact List.Sublist.refl _

/-! ## The invariant -/

/-- The acks and the queue speak of the packages by the timestamps that they were offered with. -/
structure Stamped (l : UdpLink) : Prop where
  counted : l.Counted
  pings : ∀ r ∈ l.client.sends, IsPing r.buffer
  waiting : l.client.waiting.Sublist l.client.stamps
  acks : ∀ a ∈ l.acks, ∃ r, l.client.sends[a.1]? = some r ∧
    packageStamp r = (NwcQosHdr.ofBytes a.2).ackTimestamp
  /-- What was counted does not wait any more. -/
  credited : ∀ k ∈ l.credited, ∃ r, l.client.sends[k]? = some r ∧
    packageStamp r ∉ l.client.waiting

variable {l l' : UdpLink}

/-- A second ack finds nothing. -/
theorem Stamped.countsOnce (h : l.Stamped) (e : Event) : l.CountsOnce e := by
  cases e with
  | client e => trivial
  | package k env => trivial
  | ack j recvTs =>
    intro _ a ha
    by_cases hk : a.1 ∈ l.credited
    · right
      obtain ⟨r, hr, hgone⟩ := h.credited a.1 hk
      obtain ⟨r', hr', hstamp⟩ := h.acks a (List.mem_of_getElem? ha)
      rw [hr] at hr'
      cases hr'
      intro e he heq
      refine hgone ?_
      rw [hstamp, ← heq]
      exact List.mem_map_of_mem he
    · exact Or.inl hk

/-- More packages at the end do not renumber the ones before. -/
theorem getElem?_of_made {sends made : List SendRecord} {k : Nat} {r : SendRecord}
    (h : sends[k]? = some r) : (sends ++ made)[k]? = some r := by
  obtain ⟨hk, -⟩ := List.getElem?_eq_some_iff.mp h
  rw [List.getElem?_append_left hk]
  exact h

/-- The client makes packages, each with a timestamp of its own. -/
theorem Stamped.client (h : l.Stamped) {c : UdpClient} (hmade : Issues l.client c)
    (hcounted : Counted { l with client := c }) (hdistinct : c.stamps.Nodup) :
    Stamped { l with client := c } := by
  obtain ⟨made, hsends, hpings, hsub⟩ := hmade
  have hstamps : c.stamps = l.client.stamps ++ made.map packageStamp := by
    rw [stamps, hsends, List.map_append]
    rfl
  refine ⟨hcounted, ?_, ?_, ?_, ?_⟩
  · intro r hr
    have hr' : r ∈ c.sends := hr
    rw [hsends] at hr'
    rcases List.mem_append.mp hr' with hr' | hr'
    · exact h.pings r hr'
    · exact hpings r hr'
  · show c.waiting.Sublist c.stamps
    rw [hstamps]
    exact hsub.trans (h.waiting.append_right _)
  · intro a ha
    obtain ⟨r, hr, hstamp⟩ := h.acks a ha
    refine ⟨r, ?_, hstamp⟩
    show c.sends[a.1]? = some r
    rw [hsends]
    exact getElem?_of_made hr
  · intro k hk
    obtain ⟨r, hr, hgone⟩ := h.credited k hk
    refine ⟨r, ?_, fun hin => ?_⟩
    · show c.sends[k]? = some r
      rw [hsends]
      exact getElem?_of_made hr
    · -- it would have to be one of the new timestamps, which are different
      have hold : packageStamp r ∈ l.client.stamps :=
        List.mem_map_of_mem (List.mem_of_getElem? hr)
      rw [hstamps] at hdistinct
      rcases List.mem_append.mp (hsub.subset hin) with hin | hin
      · exact hgone hin
      · exact (List.nodup_append.mp hdistinct).2.2 _ hold _ hin rfl

/-- The ack has the timestamp of the package that the server got. -/
theorem udpAccept_stamp {s : UdpServer} {r out : SendRecord} {source : SockAddr} {env : AcceptEnv}
    (hping : IsPing r.buffer)
    (h : (nwcConnectionUdpAccept s (.done r.buffer) source env).2 = some out) :
    (NwcQosHdr.ofBytes out.buffer).ackTimestamp = packageStamp r := by
  have hlen := hping.len
  have hfits : r.buffer.length ≤ RECV_BUFFER_LEN := hping.isFrame.2
  have hall : r.buffer.take RECV_BUFFER_LEN = r.buffer := List.take_of_length_le hfits
  have hwindow : (env.recvBuff.store 0 r.buffer).window 0 qosHdrLen = r.buffer.take qosHdrLen := by
    have hstore : (env.recvBuff.store 0 r.buffer).window 0 (0 + r.buffer.length)
        = env.recvBuff.window 0 0 ++ r.buffer :=
      RecvBuffer.store_window (by rw [Nat.zero_add]; exact hfits)
    have hnil : env.recvBuff.window 0 0 = [] := List.take_zero
    rw [hnil, List.nil_append] at hstore
    have hwhole : qosHdrLen ≤ 0 + r.buffer.length := by
      rw [hlen]
      decide
    exact (RecvBuffer.window_take hwhole).symm.trans (by rw [hstore])
  unfold nwcConnectionUdpAccept at h
  rw [nwcUdpHandlerRecvfrom, hall] at h
  dsimp only at h
  rw [if_neg (by omega), hwindow, NwcQosHdr.ofBytes_take (Nat.le_refl _)] at h
  cases h
  dsimp only
  rw [NwcPackage.bytes, NwcQosHdr.ofBytes_bytes]
  rfl

/-- A package reaches the server. -/
theorem Stamped.package (h : l.Stamped) {k : Nat} {r : SendRecord} {env : AcceptEnv}
    (hk : l.client.sends[k]? = some r) :
    (l.afterPackage k r env).Stamped where
  counted := h.counted.package
  pings := h.pings
  waiting := h.waiting
  acks := by
    intro a ha
    rcases afterPackage_acks ha with ha | ⟨out, hout, rfl⟩
    · exact h.acks a ha
    · have hstamp := udpAccept_stamp (h.pings r (List.mem_of_getElem? hk)) hout
      exact ⟨r, hk, hstamp.symm⟩
  credited := h.credited

/-- An ack reaches the client. -/
theorem Stamped.ack (h : l.Stamped) {j : Nat} {recvTs : UInt32} {k : Nat} {bytes : List UInt8}
    (hj : l.acks[j]? = some (k, bytes)) {c : UdpClient}
    (hstep : l.client.step (.input (.done bytes) recvTs) = some c)
    (hdistinct : l.client.stamps.Nodup) : (l.afterAck k c).Stamped := by
  have hsends := step_input_sends hstep
  have hmem := List.mem_of_getElem? hj
  obtain ⟨r, hr, hstamp⟩ := h.acks _ hmem
  obtain ⟨-, pkg, env, hbytes⟩ := h.counted.acks _ hmem
  dsimp only at hr hstamp hbytes
  have hfits : bytes.length ≤ RECV_BUFFER_LEN := by
    rw [hbytes, udpAckPackage_length]
    decide
  have hframe : qosFormat.IsFrame bytes := by
    rw [hbytes]
    exact udpAckPackage_isFrame pkg env
  obtain ⟨-, -, hqos, hsame⟩ :=
    UdpClient.step_package h.counted.client h.counted.empty hframe hfits hstep
  -- either nothing went, or the timestamp of the ack is not in the queue any more
  have hwaiting : (c.conn.qos.sentQueue = l.client.conn.qos.sentQueue) ∨
      c.waiting = l.client.waiting.erase (packageStamp r) := by
    by_cases hrunning : l.client.fate = .running
    · rw [hstamp, UdpClient.waiting, UdpClient.waiting, hqos hrunning]
      exact processPackage_waiting l.client.conn.qos (NwcQosHdr.ofBytes bytes) recvTs
    · exact Or.inl (by rw [hsame hrunning])
  have hsub : c.waiting.Sublist l.client.waiting := by
    rcases hwaiting with hsame | herase
    · rw [UdpClient.waiting, UdpClient.waiting, hsame]
    · rw [herase]
      exact List.erase_sublist
  refine ⟨h.counted.ack hj (h.countsOnce _) hstep, ?_, ?_, ?_, ?_⟩
  · show ∀ r ∈ c.sends, _
    rw [hsends]
    exact h.pings
  · show c.waiting.Sublist (c.sends.map packageStamp)
    rw [hsends]
    exact hsub.trans h.waiting
  · show ∀ a ∈ l.acks, ∃ r, c.sends[a.1]? = some r ∧ _
    rw [hsends]
    exact h.acks
  · intro i hi
    show ∃ r, c.sends[i]? = some r ∧ packageStamp r ∉ c.waiting
    rw [hsends]
    rcases List.mem_append.mp hi with hi | hi
    · obtain ⟨r', hr', hgone⟩ := h.credited i hi
      exact ⟨r', hr', fun hin => hgone (hsub.subset hin)⟩
    · obtain ⟨hne, rfl⟩ := List.mem_replicate.mp hi
      refine ⟨r, hr, ?_⟩
      rcases hwaiting with hsame | herase
      · exact absurd (by rw [hsame, Nat.sub_self]) hne
      · rw [herase]
        exact (h.waiting.nodup hdistinct).not_mem_erase

/-- The timestamps that a run has used stay used. -/
theorem step_stamps {e : Event} (h : l.step e = some l') :
    l.client.stamps.Sublist l'.client.stamps := by
  have hsends : l.client.sends <+: l'.client.sends := by
    rcases step_cases h with ⟨ce, c, rfl, -, hc, rfl⟩ | ⟨k, env, r, rfl, -, rfl⟩ |
      ⟨j, recvTs, k, bytes, c, rfl, -, hc, rfl⟩
    · exact step_sends hc
    · exact List.prefix_rfl
    · exact step_sends hc
  exact (hsends.map packageStamp).sublist

theorem Stamped.step (h : l.Stamped) {e : Event} (hstep : l.step e = some l')
    (hdistinct : l'.client.stamps.Nodup) : l'.Stamped := by
  have hbefore := (step_stamps hstep).nodup hdistinct
  have hcounted := h.counted.step (h.countsOnce e) hstep
  rcases step_cases hstep with ⟨ce, c, rfl, hq, hc, rfl⟩ | ⟨k, env, r, rfl, hk, rfl⟩ |
    ⟨j, recvTs, k, bytes, c, rfl, hj, hc, rfl⟩
  · exact h.client (hq.issues h.counted.client hc) hcounted hdistinct
  · exact h.package hk
  · exact h.ack hj hc hbefore

theorem start_stamped (bandwidth : Int) (recvBuff : RecvBuffer) (stale : UInt32) (fd add : Int)
    (eh : Nat) (server : UdpServer) (source : SockAddr) :
    (start (.start bandwidth recvBuff stale fd add eh) server source).Stamped where
  counted := start_counted bandwidth recvBuff stale fd add eh server source
  pings := fun _ hr => absurd hr List.not_mem_nil
  waiting := List.Sublist.refl _
  acks := fun _ ha => absurd ha List.not_mem_nil
  credited := fun _ hk => absurd hk List.not_mem_nil

/--
**With distinct timestamps no network makes the client count too much.**

In a run in which the client gave no two packages the same timestamp, it has taken out as
acknowledged no more packages than the server has received, whatever was lost, repeated and
reordered.
-/
theorem distinctStamps_notOvercounted (bandwidth : Int) (recvBuff : RecvBuffer) (stale : UInt32)
    (fd add : Int) (eh : Nat) (server : UdpServer) (source : SockAddr) (events : List Event)
    (l : UdpLink)
    (hrun : replay step (start (.start bandwidth recvBuff stale fd add eh) server source) events
      = some l) (hdistinct : l.client.stamps.Nodup) : l.NotOvercounted := by
  have hstamped : l.client.stamps.Nodup → l.Stamped :=
    replay_invariant (P := fun l : UdpLink => l.client.stamps.Nodup → l.Stamped)
      (I := fun _ => True) (fun _ _ _ _ h hs hd => (h ((step_stamps hs).nodup hd)).step hs hd)
      (fun _ _ => trivial)
      (fun _ => start_stamped bandwidth recvBuff stale fd add eh server source) hrun
  exact (hstamped hdistinct).counted.notOvercounted

end UdpLink

end Nwchecker
