import Nwchecker.Udp.Stamps

/-!
# What becomes of a package over UDP

A package that was made waits in `sent_queue` until an ack with its timestamp comes, or until the
statistics give it up. `packages_accounted` is the balance of every run, whatever the network loses,
repeats and reorders, and whatever timestamps the packages have: nothing leaves the queue in
another way, and an ack comes only for a package that the server received.

While the timestamps are names, the queue can be told from what came back:
`waiting_of_distinctStamps`.
-/

namespace Nwchecker

open Doubles Framing Machine

/-- The timestamp that an ack on the network is for. -/
def ackedStamp (a : Nat × List UInt8) : UInt32 := (NwcQosHdr.ofBytes a.2).ackTimestamp

/-- The header of a package in the queue. -/
def entryStamp (e : NwcPackageEntry) : UInt32 := e.message.hdr.timestamp

/-- The timestamps after an ack: the first one that is the same goes. Zero is no ack. -/
theorem processPackage_stamps (qos : NwcQosProtocol) (pkg : NwcQosHdr) (recvTs : UInt32) :
    (nwcQosProcessPackage roundDouble qos pkg recvTs).sentQueue.map entryStamp
      = if pkg.ackTimestamp = 0 then qos.sentQueue.map entryStamp
        else (qos.sentQueue.map entryStamp).erase pkg.ackTimestamp := by
  unfold nwcQosProcessPackage
  split
  · rfl
  · split
    · next hnone =>
      refine (List.erase_of_not_mem fun hin => ?_).symm
      obtain ⟨e, he, hstamp⟩ := List.mem_map.mp hin
      have hno := List.find?_eq_none.mp hnone e he
      exact hno (beq_iff_eq.mpr hstamp)
    · rw [List.erase_eq_eraseP', List.eraseP_map]
      rfl

namespace UdpClient

variable {c c' t : UdpClient}

/-- The timestamps of the packages that the statistics give up at `now`. -/
def overdue (c : UdpClient) (now : UInt32) : List UInt32 :=
  if c.conn.qos.lastStatTs = 0 then []
  else c.waiting.filter fun ts => decide (c.conn.qos.rtt < ((now - ts).toNat : ℚ))

/-- Whether a package is given up depends on its timestamp only. -/
theorem stat_waiting_perm (c : UdpClient) (now : UInt32) :
    c.waiting.Perm ((c.stat now).waiting ++ c.overdue now) := by
  have hafter : (c.stat now).waiting = (nwcQosStat c.conn.qos now).1.sentQueue.map entryStamp := rfl
  rw [hafter, stat_sentQueue, overdue]
  split
  · rw [List.append_nil]
    exact List.Perm.refl _
  · have hbefore : c.waiting = c.conn.qos.sentQueue.map entryStamp := rfl
    rw [hbefore, List.filter_map, ← List.map_append]
    refine List.Perm.map _ ?_
    exact (List.perm_append_comm.trans (List.filter_append_perm _ _)).symm

/-- From `c` to `c'` packages were made, and they wait behind the others. -/
def Offers (c c' : UdpClient) : Prop :=
  ∃ made, c'.sends = c.sends ++ made ∧ (∀ r ∈ made, IsPing r.buffer) ∧
    c'.waiting = c.waiting ++ made.map packageStamp

theorem Offers.refl (c : UdpClient) : Offers c c := by
  refine ⟨[], (List.append_nil _).symm, fun r hr => absurd hr List.not_mem_nil, ?_⟩
  rw [List.map_nil, List.append_nil]

theorem Offers.same (h : Offers c t) (hsends : c'.sends = t.sends)
    (hwaiting : c'.waiting = t.waiting) : Offers c c' := by
  obtain ⟨made, hmade, hpings, hall⟩ := h
  exact ⟨made, hsends.trans hmade, hpings, hwaiting.trans hall⟩

theorem Offers.sentOnce (h : Offers c t) (env : SendEnv) : Offers c (sentOnce env t) := by
  obtain ⟨made, hmade, hpings, hall⟩ := h
  obtain ⟨hping, hstamp⟩ := createPackage_bytes env t
  refine ⟨made ++ [⟨(createPackage env t).2.bytes, nwcUdpHandlerSend env.call⟩], ?_, ?_, ?_⟩
  · rw [← List.append_assoc, ← hmade]
    rfl
  · intro r hr
    rcases List.mem_append.mp hr with hr | hr
    · exact hpings r hr
    · rw [List.mem_singleton.mp hr]
      exact hping
  · have hlast : packageStamp ⟨(createPackage env t).2.bytes, nwcUdpHandlerSend env.call⟩
        = env.now := hstamp
    rw [sentOnce_waiting, List.map_append, List.map_cons, List.map_nil, hlast,
      ← List.append_assoc, hall]

/-- A client that is gone reads nothing. -/
theorem step_package_gone {call : SysCall (List UInt8)} (hf : c.fate ≠ .running) {recvTs : UInt32}
    (h : c.step (.input call recvTs) = some c') : c'.conn = c.conn := by
  rcases step_cases h with ⟨_, _, -, ⟨hrun, -⟩ | ⟨-, rfl⟩⟩ | ⟨hne, -⟩
  · exact absurd hrun hf
  · rfl
  · exact absurd rfl (hne _ _)

/-- What brings no datagram makes packages, or makes the statistics. -/
theorem step_offers {e : Event} (hq : UdpLink.Quiet e) (hm : c.conn.mode = .client)
    (h : c.step e = some c') :
    (∃ now, e = .stat now ∧ c' = c.stat now) ∨ ((∀ now, e ≠ .stat now) ∧ Offers c c') := by
  have hsend : ∀ {t : UdpClient} {envs : List SendEnv}, Offers c t → t.onSend envs = some c' →
      Offers c c' := fun ht =>
    onSend_rule (fun env _ hx => hx.sentOnce env) (fun _ hx => hx.same rfl rfl) ht
  cases e with
  | input call recvTs =>
    refine Or.inr ⟨fun now heq => (by cases heq), ?_⟩
    refine (Offers.refl c).same (step_input_sends h) ?_
    rw [waiting, UdpLink.input_quiet hq hm h]
    rfl
  | output envs =>
    refine Or.inr ⟨fun now heq => (by cases heq), ?_⟩
    simp only [step] at h
    split at h
    · refine hsend ?_ h
      exact (Offers.refl c).same rfl rfl
    · cases h
      exact (Offers.refl c).same rfl rfl
    · cases h
  | tick envs =>
    refine Or.inr ⟨fun now heq => (by cases heq), ?_⟩
    simp only [step] at h
    split at h
    · exact hsend (Offers.refl c) h
    · cases h
  | stat now =>
    simp only [step] at h
    split at h
    · cases h
      exact Or.inl ⟨now, rfl, rfl⟩
    · cases h

end UdpClient

namespace UdpLink

open UdpClient

/-! ## What is noticed along a run -/

/-- What a client has learnt of its packages, by their timestamps. -/
structure Notices where
  /-- An ack for it came. -/
  heard : List UInt32
  /-- An ack took it out of the queue. -/
  acked : List UInt32
  /-- The statistics gave it up. -/
  lost : List UInt32
  deriving DecidableEq

def Notices.none : Notices where
  heard := []
  acked := []
  lost := []

/-- An ack with the timestamp `ts` comes to a client in which the packages `waiting` wait. -/
def Notices.hear (n : Notices) (waiting : List UInt32) (ts : UInt32) : Notices :=
  { n with
    heard := n.heard ++ [ts]
    acked := if ts ≠ 0 ∧ ts ∈ waiting then n.acked ++ [ts] else n.acked }

/-- What the client learns in a step. -/
def note (l : UdpLink) (e : Event) (n : Notices) : Notices :=
  match e with
  | .client (.stat now) => { n with lost := n.lost ++ l.client.overdue now }
  | .client _ => n
  | .package _ _ => n
  | .ack j _ =>
    match l.client.fate, l.acks[j]? with
    | .running, some a => n.hear l.client.waiting (ackedStamp a)
    | _, _ => n

/-- The package `k` has the timestamp `ts`. -/
def IsStampOf (c : UdpClient) (k : Nat) (ts : UInt32) : Prop :=
  ∃ r, c.sends[k]? = some r ∧ packageStamp r = ts

/-- The balance of the packages. -/
structure Accounted (l : UdpLink) (n : Notices) : Prop where
  client : l.client.conn.mode = .client
  empty : l.client.leftover = []
  pings : ∀ r ∈ l.client.sends, IsPing r.buffer
  acks : ∀ a ∈ l.acks, a.1 ∈ l.received ∧ (∃ pkg env, a.2 = (udpAckPackage pkg env).bytes) ∧
    IsStampOf l.client a.1 (ackedStamp a)
  heard : ∀ ts ∈ n.heard, ∃ k ∈ l.received, IsStampOf l.client k ts
  acked : n.acked.Sublist n.heard
  waiting : l.client.waiting.Sublist l.client.stamps
  perm : l.client.stamps.Perm (l.client.waiting ++ (n.acked ++ n.lost))

variable {l l' : UdpLink} {n : Notices}

theorem IsStampOf.mem {c : UdpClient} {k : Nat} {ts : UInt32} (h : IsStampOf c k ts) :
    ts ∈ c.stamps := by
  obtain ⟨r, hr, rfl⟩ := h
  exact List.mem_map_of_mem (List.mem_of_getElem? hr)

/-- More packages do not rename the ones before. -/
theorem IsStampOf.mono {c c' : UdpClient} {k : Nat} {ts : UInt32} (h : IsStampOf c k ts)
    (hsends : c.sends <+: c'.sends) : IsStampOf c' k ts := by
  obtain ⟨r, hr, hstamp⟩ := h
  obtain ⟨made, hmade⟩ := hsends
  exact ⟨r, by rw [← hmade]; exact getElem?_of_made hr, hstamp⟩

/-- Only the client has moved. -/
theorem Accounted.moved (h : l.Accounted n) {n' : Notices} (hacks : l'.acks = l.acks)
    (hreceived : l'.received = l.received) (hm : l'.client.conn.mode = .client)
    (hl : l'.client.leftover = []) (hsends : l.client.sends <+: l'.client.sends)
    (hpings : ∀ r ∈ l'.client.sends, IsPing r.buffer)
    (hheard : ∀ ts ∈ n'.heard, ∃ k ∈ l.received, IsStampOf l.client k ts)
    (hacked : n'.acked.Sublist n'.heard) (hwaiting : l'.client.waiting.Sublist l'.client.stamps)
    (hperm : l'.client.stamps.Perm (l'.client.waiting ++ (n'.acked ++ n'.lost))) :
    l'.Accounted n' where
  client := hm
  empty := hl
  pings := hpings
  acks := by
    rw [hacks, hreceived]
    exact fun a ha => ⟨(h.acks a ha).1, (h.acks a ha).2.1, (h.acks a ha).2.2.mono hsends⟩
  heard := by
    rw [hreceived]
    intro ts hts
    obtain ⟨k, hk, hstamp⟩ := hheard ts hts
    exact ⟨k, hk, hstamp.mono hsends⟩
  acked := hacked
  waiting := hwaiting
  perm := hperm

/-- The statistics move packages from the queue to the lost ones. -/
theorem Accounted.stat (h : l.Accounted n) (now : UInt32) :
    Accounted { l with client := l.client.stat now }
      { n with lost := n.lost ++ l.client.overdue now } := by
  refine h.moved rfl rfl h.client h.empty List.prefix_rfl h.pings h.heard h.acked
    ((stat_waiting l.client now).trans h.waiting) ?_
  calc l.client.stamps
      |>.Perm (l.client.waiting ++ (n.acked ++ n.lost)) := h.perm
    _ |>.Perm ((l.client.stat now).waiting ++ l.client.overdue now ++ (n.acked ++ n.lost)) :=
        (stat_waiting_perm l.client now).append_right _
    _ |>.Perm ((l.client.stat now).waiting ++ (n.acked ++ (n.lost ++ l.client.overdue now))) := by
        rw [List.append_assoc, ← List.append_assoc n.acked]
        exact List.perm_append_comm.append_left _

/-- New packages wait. -/
theorem Accounted.offers (h : l.Accounted n) {c : UdpClient} (hm : c.conn.mode = .client)
    (hl : c.leftover = []) (hmade : Offers l.client c) : Accounted { l with client := c } n := by
  obtain ⟨made, hsends, hpings, hwaiting⟩ := hmade
  have hstamps : c.stamps = l.client.stamps ++ made.map packageStamp := by
    rw [stamps, hsends, List.map_append]
    rfl
  refine h.moved rfl rfl hm hl ?_ ?_ h.heard h.acked ?_ ?_
  · rw [hsends]
    exact List.prefix_append _ _
  · show ∀ r ∈ c.sends, IsPing r.buffer
    intro r hr
    rw [hsends] at hr
    exact (List.mem_append.mp hr).elim (h.pings r) (hpings r)
  · show c.waiting.Sublist c.stamps
    rw [hstamps, hwaiting]
    exact h.waiting.append_right _
  · show c.stamps.Perm (c.waiting ++ _)
    rw [hstamps, hwaiting]
    refine (h.perm.append_right _).trans ?_
    rw [List.append_assoc l.client.waiting, List.append_assoc l.client.waiting]
    exact List.perm_append_comm.append_left _

/-- A package reaches the server. -/
theorem Accounted.package (h : l.Accounted n) {k : Nat} {r : SendRecord} {env : AcceptEnv}
    (hk : l.client.sends[k]? = some r) : (l.afterPackage k r env).Accounted n where
  client := h.client
  empty := h.empty
  pings := h.pings
  acks := by
    intro a ha
    rcases afterPackage_acks ha with ha | ⟨out, hout, rfl⟩
    · exact ⟨List.mem_append_left _ (h.acks a ha).1, (h.acks a ha).2⟩
    · obtain ⟨pkg, hpkg⟩ := udpAccept_reply hout
      have hstamp := udpAccept_stamp (h.pings r (List.mem_of_getElem? hk)) hout
      exact ⟨List.mem_append_right _ List.mem_cons_self, ⟨pkg, env, hpkg⟩, r, hk, hstamp.symm⟩
  heard := by
    intro ts hts
    obtain ⟨i, hi, hstamp⟩ := h.heard ts hts
    exact ⟨i, List.mem_append_left _ hi, hstamp⟩
  acked := h.acked
  waiting := h.waiting
  perm := h.perm

/-- The queue of a client that reads an ack with the timestamp `ts`. -/
theorem Accounted.step_ack (h : l.Accounted n) {j : Nat} {recvTs : UInt32}
    {a : Nat × List UInt8} (hj : l.acks[j]? = some a) {c : UdpClient}
    (hf : l.client.fate = .running)
    (hstep : l.client.step (.input (.done a.2) recvTs) = some c) :
    c.waiting = if ackedStamp a = 0 then l.client.waiting
      else l.client.waiting.erase (ackedStamp a) := by
  obtain ⟨-, ⟨pkg, env, hbytes⟩, -⟩ := h.acks a (List.mem_of_getElem? hj)
  obtain ⟨-, -, hqos, -⟩ := UdpClient.step_package h.client h.empty
    (by rw [hbytes]; exact udpAckPackage_isFrame pkg env)
    (by rw [hbytes, udpAckPackage_length]; decide) hstep
  have hwaiting : c.waiting = c.conn.qos.sentQueue.map entryStamp := rfl
  rw [hwaiting, hqos hf, processPackage_stamps]
  rfl

/-- An ack reaches a client that is there. -/
theorem Accounted.ack (h : l.Accounted n) {j : Nat} {recvTs : UInt32} {a : Nat × List UInt8}
    (hj : l.acks[j]? = some a) {c : UdpClient} (hf : l.client.fate = .running)
    (hstep : l.client.step (.input (.done a.2) recvTs) = some c) :
    (l.afterAck a.1 c).Accounted (n.hear l.client.waiting (ackedStamp a)) := by
  obtain ⟨hreceived, ⟨pkg, env, hbytes⟩, hstamp⟩ := h.acks a (List.mem_of_getElem? hj)
  obtain ⟨hm, hl, -⟩ := UdpClient.step_package h.client h.empty
    (by rw [hbytes]; exact udpAckPackage_isFrame pkg env)
    (by rw [hbytes, udpAckPackage_length]; decide) hstep
  have hsends := step_input_sends hstep
  have hstamps : c.stamps = l.client.stamps := by rw [stamps, hsends, stamps]
  have hwaiting := h.step_ack hj hf hstep
  refine h.moved rfl rfl hm hl ?_ ?_ ?_ ?_ ?_ ?_
  · show l.client.sends <+: c.sends
    rw [hsends]
  · show ∀ r ∈ c.sends, _
    rw [hsends]
    exact h.pings
  · intro ts hts
    rcases List.mem_append.mp hts with hts | hts
    · exact h.heard ts hts
    · rw [List.mem_singleton.mp hts]
      exact ⟨a.1, hreceived, hstamp⟩
  · unfold Notices.hear
    dsimp only
    split
    · exact h.acked.append_right _
    · exact h.acked.trans (List.sublist_append_left _ _)
  · show c.waiting.Sublist c.stamps
    rw [hstamps, hwaiting]
    split
    · exact h.waiting
    · exact List.erase_sublist.trans h.waiting
  · show c.stamps.Perm (c.waiting ++ _)
    rw [hstamps, hwaiting]
    unfold Notices.hear
    dsimp only
    by_cases h0 : ackedStamp a = 0
    · rw [if_pos h0, if_neg fun hboth => hboth.1 h0]
      exact h.perm
    · rw [if_neg h0]
      by_cases hin : ackedStamp a ∈ l.client.waiting
      · rw [if_pos ⟨h0, hin⟩]
        -- it moves from the queue to the acked ones
        refine h.perm.trans (((List.perm_cons_erase hin).append_right _).trans ?_)
        rw [List.cons_append, List.append_assoc n.acked]
        have hmove : (n.acked ++ ackedStamp a :: n.lost).Perm
            (ackedStamp a :: (n.acked ++ n.lost)) := List.perm_middle
        exact List.perm_middle.symm.trans (hmove.symm.append_left _)
      · rw [if_neg fun hboth => hin hboth.2, List.erase_of_not_mem hin]
        exact h.perm

/-- A client that is gone does not hear of an ack. -/
theorem Accounted.unheard (h : l.Accounted n) {k : Nat} {call : SysCall (List UInt8)}
    {recvTs : UInt32} {c : UdpClient} (hf : l.client.fate ≠ .running)
    (hstep : l.client.step (.input call recvTs) = some c) : (l.afterAck k c).Accounted n := by
  have hsends := step_input_sends hstep
  have hconn := step_package_gone hf hstep
  have hstamps : c.stamps = l.client.stamps := by rw [stamps, hsends, stamps]
  have hwaiting : c.waiting = l.client.waiting := by
    rw [UdpClient.waiting, hconn, UdpClient.waiting]
  refine h.moved rfl rfl ?_ ?_ ?_ ?_ h.heard h.acked ?_ ?_
  · show c.conn.mode = .client
    rw [hconn]
    exact h.client
  · show c.conn.leftover = []
    rw [hconn]
    exact h.empty
  · show l.client.sends <+: c.sends
    rw [hsends]
  · show ∀ r ∈ c.sends, _
    rw [hsends]
    exact h.pings
  · show c.waiting.Sublist c.stamps
    rw [hwaiting, hstamps]
    exact h.waiting
  · show c.stamps.Perm (c.waiting ++ _)
    rw [hwaiting, hstamps]
    exact h.perm

/-- What the client learns when an ack comes, or does not. -/
theorem note_ack (l : UdpLink) {j : Nat} {recvTs : UInt32} {a : Nat × List UInt8}
    (hj : l.acks[j]? = some a) (n : Notices) :
    (l.client.fate = .running ∧
      note l (.ack j recvTs) n = n.hear l.client.waiting (ackedStamp a)) ∨
    (l.client.fate ≠ .running ∧ note l (.ack j recvTs) n = n) := by
  simp only [note, hj]
  cases l.client.fate with
  | running => exact Or.inl ⟨rfl, rfl⟩
  | closed => exact Or.inr ⟨nofun, rfl⟩
  | wild => exact Or.inr ⟨nofun, rfl⟩

/-- An event at the client that is not the statistics teaches it nothing. -/
theorem note_client (l : UdpLink) {e : UdpClient.Event} (he : ∀ now, e ≠ .stat now) (n : Notices) :
    note l (.client e) n = n := by
  cases e with
  | input call recvTs => rfl
  | output envs => rfl
  | tick envs => rfl
  | stat now => exact absurd rfl (he now)

theorem Accounted.step (h : l.Accounted n) {e : Event} (hstep : l.step e = some l') :
    l'.Accounted (note l e n) := by
  rcases step_cases hstep with ⟨ce, c, rfl, hq, hc, rfl⟩ | ⟨k, env, r, rfl, hk, rfl⟩ |
    ⟨j, recvTs, k, bytes, c, rfl, hj, hc, rfl⟩
  · obtain ⟨hm, hl⟩ := hq.same h.client hc
    rcases step_offers hq h.client hc with ⟨now, rfl, rfl⟩ | ⟨hne, hmade⟩
    · exact h.stat now
    · rw [note_client l hne]
      exact h.offers hm (hl.trans h.empty) hmade
  · exact h.package hk
  · rcases note_ack l hj n with ⟨hf, hnote⟩ | ⟨hf, hnote⟩
    · rw [hnote]
      exact h.ack hj hf hc
    · rw [hnote]
      exact h.unheard hf hc

theorem start_accounted (bandwidth : Int) (recvBuff : RecvBuffer) (stale : UInt32) (fd add : Int)
    (eh : Nat) (server : UdpServer) (source : SockAddr) :
    (start (.start bandwidth recvBuff stale fd add eh) server source).Accounted .none where
  client := rfl
  empty := (start_counted bandwidth recvBuff stale fd add eh server source).empty
  pings := fun _ hr => absurd hr List.not_mem_nil
  acks := fun _ ha => absurd ha List.not_mem_nil
  heard := fun _ hts => absurd hts List.not_mem_nil
  acked := List.Sublist.refl _
  waiting := List.Sublist.refl _
  perm := List.Perm.refl _

/--
**A package over UDP waits, or was acked, or was given up.**

Whatever the network loses, repeats and reorders, and whatever the timestamps are: the packages
made are those that wait, in the order in which they were made, those that acks took out, and those
that the statistics gave up, each once. The acks that took one out are some of those that came to
the client, and what came is for packages that the server received.
-/
theorem packages_accounted (bandwidth : Int) (recvBuff : RecvBuffer) (stale : UInt32) (fd add : Int)
    (eh : Nat) (server : UdpServer) (source : SockAddr) (events : List Event) (l : UdpLink)
    (hrun : replay step (start (.start bandwidth recvBuff stale fd add eh) server source) events
      = some l) :
    let n := history step note .none
      (start (.start bandwidth recvBuff stale fd add eh) server source) events
    l.client.stamps.Perm (l.client.waiting ++ (n.acked ++ n.lost)) ∧
      l.client.waiting.Sublist l.client.stamps ∧ n.acked.Sublist n.heard ∧
      ∀ ts ∈ n.heard, ∃ k ∈ l.received, IsStampOf l.client k ts := by
  have hend : l.Accounted (history step note .none _ events) :=
    history_invariant (fun _ _ _ _ h hs => h.step hs)
      (start_accounted bandwidth recvBuff stale fd add eh server source) hrun
  exact ⟨hend.perm, hend.waiting, hend.acked, hend.heard⟩

/-- One package of a burst arrives. Its ack comes twice, and takes out the other one too. -/
theorem repeatedAck_accounted : ∃ l,
    replay step sample [burst, answer 0, .ack 0 7, .ack 0 8] = some l ∧
      l.client.stamps.Perm (l.client.waiting ++ [5, 5]) := by
  obtain ⟨l, hl⟩ := Option.isSome_iff_exists.mp
    (show (replay step sample [burst, answer 0, .ack 0 7, .ack 0 8]).isSome by decide +kernel)
  have hall := packages_accounted 224000 RecvBuffer.zero 0 3 0 0 _ _ _ l hl
  have hnotices : history step note .none sample [burst, answer 0, .ack 0 7, .ack 0 8]
      = { heard := [5, 5], acked := [5, 5], lost := [] } := by decide +kernel
  refine ⟨l, hl, ?_⟩
  have hperm := hall.1
  rw [show start _ _ _ = sample from rfl, hnotices] at hperm
  exact hperm

/-! ## Timestamps that are names -/

/-- The balance, and what came back does not wait any more. -/
structure Named (l : UdpLink) (n : Notices) : Prop where
  accounted : l.Accounted n
  heard : l.client.stamps.Nodup → ∀ ts ∈ n.heard, ts ≠ 0 → ts ∉ l.client.waiting
  zero : 0 ∉ n.acked

theorem Named.step (h : l.Named n) {e : Event} (hstep : l.step e = some l') :
    l'.Named (note l e n) := by
  have ha := h.accounted
  have hnext := ha.step hstep
  have hbefore : l'.client.stamps.Nodup → l.client.stamps.Nodup := (step_stamps hstep).nodup
  rcases step_cases hstep with ⟨ce, c, rfl, hq, hc, rfl⟩ | ⟨k, env, r, rfl, hk, rfl⟩ |
    ⟨j, recvTs, k, bytes, c, rfl, hj, hc, rfl⟩
  · rcases step_offers hq ha.client hc with ⟨now, rfl, rfl⟩ | ⟨hne, made, hsends, -, hwaiting⟩
    · refine ⟨hnext, fun hd ts hts h0 hin => h.heard (hbefore hd) ts hts h0 ?_, h.zero⟩
      exact (stat_waiting l.client now).subset hin
    · rw [note_client l hne] at hnext ⊢
      refine ⟨hnext, fun hd ts hts h0 hin => ?_, h.zero⟩
      have hin' : ts ∈ c.waiting := hin
      rw [hwaiting] at hin'
      rcases List.mem_append.mp hin' with hold | hnew
      · exact h.heard (hbefore hd) ts hts h0 hold
      · -- the timestamp of a package made before
        obtain ⟨k, -, hstamp⟩ := ha.heard ts hts
        have hstamps : c.stamps = l.client.stamps ++ made.map packageStamp := by
          rw [stamps, hsends, List.map_append]
          rfl
        have hnodup : c.stamps.Nodup := hd
        rw [hstamps] at hnodup
        exact (List.nodup_append.mp hnodup).2.2 _ hstamp.mem _ hnew rfl
  · exact ⟨hnext, h.heard, h.zero⟩
  · rcases note_ack l hj n with ⟨hf, hnote⟩ | ⟨hf, hnote⟩
    · have hwaiting := ha.step_ack hj hf hc
      rw [hnote] at hnext ⊢
      refine ⟨hnext, fun hd ts hts h0 hin => ?_, ?_⟩
      · have hin' : ts ∈ c.waiting := hin
        rcases List.mem_append.mp hts with hts | hts
        · refine h.heard (hbefore hd) ts hts h0 ?_
          rw [hwaiting] at hin'
          split at hin'
          · exact hin'
          · exact List.mem_of_mem_erase hin'
        · rw [List.mem_singleton.mp hts] at h0 hin'
          rw [hwaiting, if_neg h0] at hin'
          exact (ha.waiting.nodup (hbefore hd)).not_mem_erase hin'
      · unfold Notices.hear
        dsimp only
        split
        · next hboth =>
          intro hin
          rcases List.mem_append.mp hin with hin | hin
          · exact h.zero hin
          · exact hboth.1 (List.mem_singleton.mp hin).symm
        · exact h.zero
    · rw [hnote] at hnext ⊢
      refine ⟨hnext, fun hd ts hts h0 hin => h.heard (hbefore hd) ts hts h0 ?_, h.zero⟩
      have hconn := step_package_gone hf hc
      have hin' : ts ∈ c.waiting := hin
      rw [UdpClient.waiting, hconn] at hin'
      exact hin'

/-- A part of a list without repetitions is told by what is in it. -/
theorem eq_filter_of_sublist {α : Type*} {s l : List α} {p : α → Bool} (hsub : s.Sublist l)
    (hl : l.Nodup) (hp : ∀ x ∈ l, x ∈ s ↔ p x) : s = l.filter p := by
  have hall : s.filter p = s :=
    List.filter_eq_self.mpr fun x hx => (hp x (hsub.subset hx)).mp hx
  have hfilter : s.Sublist (l.filter p) := hall ▸ hsub.filter p
  refine hfilter.eq_of_length_le ((hl.filter p).subperm fun x hx => ?_).length_le
  obtain ⟨hmem, hpx⟩ := List.mem_filter.mp hx
  exact (hp x hmem).mpr hpx

theorem Named.waiting_eq (h : l.Named n) (hdistinct : l.client.stamps.Nodup) :
    l.client.waiting
      = l.client.stamps.filter fun ts => ts ∉ n.lost ∧ (ts = 0 ∨ ts ∉ n.heard) := by
  have ha := h.accounted
  have hnodup := ha.perm.nodup hdistinct
  have happart := (List.nodup_append.mp hnodup).2.2
  refine eq_filter_of_sublist ha.waiting hdistinct fun ts hts => ?_
  rw [decide_eq_true_iff]
  constructor
  · intro hin
    refine ⟨fun hlost => happart _ hin _ (List.mem_append_right _ hlost) rfl, ?_⟩
    by_cases h0 : ts = 0
    · exact Or.inl h0
    · exact Or.inr fun hheard => h.heard hdistinct ts hheard h0 hin
  · rintro ⟨hlost, hheard⟩
    rcases List.mem_append.mp (ha.perm.subset hts) with hin | hin
    · exact hin
    · rcases List.mem_append.mp hin with hacked | hin
      · rcases hheard with rfl | hheard
        · exact absurd hacked h.zero
        · exact absurd (ha.acked.subset hacked) hheard
      · exact absurd hin hlost

/--
**With distinct timestamps the queue is what has not come back.**

In a run in which the client gave no two packages the same timestamp, the packages that wait are
exactly those that the statistics have not given up and no ack has come for, in the order in which
they were made, however often and in whatever order the acks came. A package with the timestamp
zero is never acked.
-/
theorem waiting_of_distinctStamps (bandwidth : Int) (recvBuff : RecvBuffer) (stale : UInt32)
    (fd add : Int) (eh : Nat) (server : UdpServer) (source : SockAddr) (events : List Event)
    (l : UdpLink)
    (hrun : replay step (start (.start bandwidth recvBuff stale fd add eh) server source) events
      = some l) (hdistinct : l.client.stamps.Nodup) :
    let n := history step note .none
      (start (.start bandwidth recvBuff stale fd add eh) server source) events
    l.client.waiting
      = l.client.stamps.filter fun ts => ts ∉ n.lost ∧ (ts = 0 ∨ ts ∉ n.heard) := by
  have hend : l.Named (history step note .none _ events) :=
    history_invariant (fun _ _ _ _ h hs => h.step hs)
      ⟨start_accounted bandwidth recvBuff stale fd add eh server source,
        fun _ _ hts => absurd hts List.not_mem_nil, List.not_mem_nil⟩ hrun
  exact hend.waiting_eq hdistinct

/-- Two packages with timestamps of their own. -/
def twoStamps : Event :=
  .client (.tick ([5, 6, 7].map fun now => { now := now, block := .zero _, call := .done 1316 }))

/-- Both arrive, the ack of the first one is lost, and that of the second one comes twice. -/
theorem lostAck_waits : ∃ l,
    replay step sample [twoStamps, answer 0, answer 1, .ack 1 7, .ack 1 8] = some l ∧
      l.client.waiting = [5] := by
  obtain ⟨l, hl⟩ := Option.isSome_iff_exists.mp
    (show (replay step sample [twoStamps, answer 0, answer 1, .ack 1 7, .ack 1 8]).isSome by
      decide +kernel)
  have hview : (replay step sample [twoStamps, answer 0, answer 1, .ack 1 7, .ack 1 8]).map
      (fun l => l.client.stamps) = some [5, 6] := by decide +kernel
  rw [hl] at hview
  have hstamps : l.client.stamps = [5, 6] := Option.some.inj hview
  have hnotices : history step note .none sample
      [twoStamps, answer 0, answer 1, .ack 1 7, .ack 1 8]
      = { heard := [6, 6], acked := [6], lost := [] } := by decide +kernel
  have hwaiting := waiting_of_distinctStamps 224000 RecvBuffer.zero 0 3 0 0 _ _ _ l hl
    (by rw [hstamps]; decide)
  rw [show start _ _ _ = sample from rfl, hnotices, hstamps] at hwaiting
  exact ⟨l, hl, hwaiting.trans (by decide)⟩

end UdpLink

end Nwchecker
