import Mathlib.Logic.Relation
import Nwchecker.Connection.ClientOutput

/-!
# What the counters count

`nwc_connection_on_send` creates a package, which puts it into `sent_queue` and adds it to the
counters, and then offers it to the transport. Nothing is undone when the transport takes only a
part of it or nothing at all.

The machine of this file notes at which send a report was made. `accounted_of_full` says that the
counters stand for what the transport took since the last report as long as it takes every package
whole, and that they are wrong from the first package on that it does not.
-/

namespace Nwchecker

open Doubles Loop Machine Words

/-! ## The machine -/

/-- A connection, and how many of its sends the reports so far have seen. -/
structure Accounting where
  outcome : Outcome
  mark : Nat

/-- A report sees all the sends there are. -/
def Accounting.markAfter (a : Accounting) : ConnEvent → Nat
  | .stat now =>
    if (nwcConnectionStat a.outcome.session now).2.isSome then a.outcome.session.sock.sends.length
    else a.mark
  | _ => a.mark

def accountingStep (a : Accounting) (ev : ConnEvent) : Option Accounting :=
  match connStep a.outcome ev with
  | some o => some { outcome := o, mark := a.markAfter ev }
  | none => none

/-- A client that has just been set up. -/
def Accounting.start (bandwidth : Int) (recvBuff : RecvBuffer) (stale : UInt32)
    (io : NwcTcpHandler) : Accounting where
  outcome := .returned 0 (Session.opened (nwcConnectionInit .client bandwidth recvBuff stale) io)
  mark := 0

/-! ## Accounting -/

/-- The sends that the transport took, in full or in part. -/
def acceptedSends (sends : List SendRecord) : List SendRecord := sends.filter fun r => 0 < r.rc

/-- The bytes that the transport took. -/
def acceptedBytes (sends : List SendRecord) : Nat :=
  ((acceptedSends sends).map fun r => r.rc.toNat).sum

def Accounting.sends (a : Accounting) : List SendRecord := a.outcome.session.sock.sends

/-- The sends since the last report. -/
def Accounting.recent (a : Accounting) : List SendRecord := a.sends.drop a.mark

/--
The counters stand for the packages and bytes that the transport took since the last report, and
the packages that wait for an ack, and may be counted as lost, are packages that it took.
-/
structure Accounting.Accounted (a : Accounting) : Prop where
  packages : a.outcome.session.conn.qos.sentPackagesPerSecs.toNat = (acceptedSends a.recent).length
  bytes : a.outcome.session.conn.qos.sentBytes.toNat = acceptedBytes a.recent
  queue : (a.outcome.session.conn.qos.sentQueue.map fun e => e.message.bytes).Sublist
    ((acceptedSends a.sends).map SendRecord.buffer)

/-! ## What a callback does to the protocol -/

/-- Acks have been processed, and nothing else has happened. -/
def Processed : NwcQosProtocol → NwcQosProtocol → Prop :=
  Relation.ReflTransGen fun q q' => ∃ pkg recvTs, q' = nwcQosProcessPackage roundDouble q pkg recvTs

theorem Processed.refl (q : NwcQosProtocol) : Processed q q := Relation.ReflTransGen.refl

theorem Processed.trans {q q' q'' : NwcQosProtocol} (h : Processed q q') (h' : Processed q' q'') :
    Processed q q'' := Relation.ReflTransGen.trans h h'

theorem parsePass_processed (recvTs : UInt32) (env : PassEnv) (p : ParseState) :
    (∀ p', parsePass recvTs env p = .again p' →
        Processed p.session.conn.qos p'.session.conn.qos) ∧
      (∀ r, parsePass recvTs env p = .leave r →
        Processed p.session.conn.qos r.session.conn.qos) := by
  rcases parsePass_cases recvTs env p with ⟨r, heq, hr, -⟩ | ⟨-, heq⟩ |
    ⟨-, pkg, t, rfl, ⟨-, heq⟩ | heq⟩ | ⟨-, pkg, t, heq, hconn, -⟩
  · rw [heq]
    refine Flow.at_leave ?_
    rw [hr]
    exact Processed.refl _
  · rw [heq]
    exact Flow.at_again (Processed.refl _)
  · rw [heq, nwcIoSend_session]
    exact Flow.at_leave (Processed.refl _)
  · rw [heq, nwcIoSend_session]
    exact Flow.at_again (Processed.refl _)
  · have hqos : t.conn.qos = nwcQosProcessPackage roundDouble p.session.conn.qos pkg recvTs := by
      rw [hconn]
    rw [heq]
    exact Flow.at_again (Relation.ReflTransGen.single ⟨pkg, recvTs, hqos⟩)

theorem recvFinish_processed (p : ParseState) :
    Processed p.session.conn.qos (recvFinish p).session.conn.qos := by
  obtain ⟨c, hsession, -, hqos⟩ := recvFinish_session p
  rw [hsession, hqos]
  exact Processed.refl _

/-- Reading processes acks and does nothing else to the protocol. -/
theorem onRecv_processed (s : Session) (a : Arrival) :
    Processed s.conn.qos (nwcConnectionOnRecv s a).session.conn.qos := by
  rcases onRecv_cases s a with ⟨errno, -, ⟨-, heq⟩ | ⟨-, rc, heq⟩⟩ | ⟨-, heq⟩ |
    ⟨data, -, -, -, heq⟩
  · rw [heq]
    exact Processed.refl _
  · rw [heq]
    exact Processed.refl _
  · rw [heq]
    exact Processed.refl _
  · rw [heq]
    exact afterLoop_relates (T := fun s t => Processed s.conn.qos t.conn.qos)
      (fun _ => Processed.refl _) (fun _ _ _ h h' => h.trans h') (parsePass_processed a.recvTs)
      recvFinish_processed a.env (parseEntry s data)

/-- An ack takes a package out of the queue, or none, and leaves the counters of the sends. -/
theorem processPackage_counters (qos : NwcQosProtocol) (pkg : NwcQosHdr) (recvTs : UInt32) :
    let qos' := nwcQosProcessPackage roundDouble qos pkg recvTs
    qos'.sentPackagesPerSecs = qos.sentPackagesPerSecs ∧ qos'.sentBytes = qos.sentBytes ∧
      qos'.sentQueue.Sublist qos.sentQueue ∧ qos'.sendBandwidth = qos.sendBandwidth := by
  dsimp only
  unfold nwcQosProcessPackage
  split
  · exact ⟨rfl, rfl, List.Sublist.refl _, rfl⟩
  · split
    · exact ⟨rfl, rfl, List.Sublist.refl _, rfl⟩
    · exact ⟨rfl, rfl, List.eraseP_sublist, rfl⟩

theorem Processed.counters {q q' : NwcQosProtocol} (h : Processed q q') :
    q'.sentPackagesPerSecs = q.sentPackagesPerSecs ∧ q'.sentBytes = q.sentBytes ∧
      q'.sentQueue.Sublist q.sentQueue ∧ q'.sendBandwidth = q.sendBandwidth := by
  induction h with
  | refl => exact ⟨rfl, rfl, List.Sublist.refl _, rfl⟩
  | tail _ hstep ih =>
    obtain ⟨pkg, recvTs, rfl⟩ := hstep
    obtain ⟨h₁, h₂, h₃, h₄⟩ := ih
    obtain ⟨h₁', h₂', h₃', h₄'⟩ := processPackage_counters _ pkg recvTs
    exact ⟨h₁'.trans h₁, h₂'.trans h₂, h₃'.trans h₃, h₄'.trans h₄⟩

/-! ## Every package offered is counted -/

/--
What the counters do stand for: the packages offered to the transport since the last report, 1316
bytes each, whatever became of them.
-/
structure CountsOffers (mark : Nat) (s : Session) : Prop where
  pings : OffersPings s
  mark_le : mark ≤ s.sock.sends.length
  packages : s.conn.qos.sentPackagesPerSecs = UInt32.ofNat (s.sock.sends.length - mark)
  bytes : s.conn.qos.sentBytes = UInt32.ofNat (1316 * (s.sock.sends.length - mark))
  queue : (s.conn.qos.sentQueue.map fun e => e.message.bytes).Sublist
    (s.sock.sends.map SendRecord.buffer)

variable {mark : Nat} {s : Session}

/-- Only the protocol and the sends matter. -/
theorem CountsOffers.of_processed {t : Session} (h : CountsOffers mark s) (hpings : OffersPings t)
    (hsends : t.sock.sends = s.sock.sends) (hqos : Processed s.conn.qos t.conn.qos) :
    CountsOffers mark t := by
  obtain ⟨hpackages, hbytes, hqueue, -⟩ := hqos.counters
  refine ⟨hpings, ?_, ?_, ?_, ?_⟩
  · rw [hsends]
    exact h.mark_le
  · rw [hpackages, hsends]
    exact h.packages
  · rw [hbytes, hsends]
    exact h.bytes
  · rw [hsends]
    exact (hqueue.map _).trans h.queue

/-- A client sends nothing when it reads. -/
theorem onRecv_client (hclient : s.conn.mode = .client) (a : Arrival) :
    (nwcConnectionOnRecv s a).session.conn.mode = .client ∧
      (nwcConnectionOnRecv s a).session.sock.sends = s.sock.sends := by
  rcases onRecv_cases s a with ⟨errno, -, ⟨-, heq⟩ | ⟨-, rc, heq⟩⟩ | ⟨-, heq⟩ |
    ⟨data, -, -, -, heq⟩
  · rw [heq]
    exact ⟨hclient, rfl⟩
  · rw [heq]
    exact ⟨hclient, rfl⟩
  · rw [heq]
    exact ⟨hclient, rfl⟩
  · have huntouched := afterLoop_untouched a.recvTs a.env (parseEntry s data)
    rw [heq, huntouched.client hclient]
    exact ⟨huntouched.mode.trans hclient, rfl⟩

theorem CountsOffers.onRecv (h : CountsOffers mark s) (a : Arrival) :
    CountsOffers mark (nwcConnectionOnRecv s a).session :=
  h.of_processed (h.pings.onRecv a) (onRecv_client h.pings.client a).2 (onRecv_processed s a)

/-- A package created and offered. -/
theorem CountsOffers.tickSent (h : CountsOffers mark s) (env : SendEnv) :
    CountsOffers mark (tickSent env s) := by
  have hqos := tickSent_qos env s
  have hsends := tickSent_sends env s
  have hlen : (Nwchecker.tickSent env s).sock.sends.length - mark
      = s.sock.sends.length - mark + 1 := by
    have hle := h.mark_le
    rw [hsends, List.length_append, List.length_singleton]
    omega
  refine ⟨h.pings.tickSent env, ?_, ?_, ?_, ?_⟩
  · rw [hsends, List.length_append]
    exact Nat.le_add_right_of_le h.mark_le
  · rw [hqos, hlen, UInt32.ofNat_add, ← h.packages]
    rfl
  · rw [hqos, hlen, Nat.mul_succ, UInt32.ofNat_add, ← h.bytes]
    rfl
  · rw [tickSent_sentQueue, hsends, List.map_append, List.map_append]
    exact h.queue.append (List.Sublist.refl _)

theorem CountsOffers.onSend (h : CountsOffers mark s) (envs : List SendEnv) :
    CountsOffers mark (nwcConnectionOnSend s envs).session := by
  obtain ⟨t, ht, hways⟩ := onSend_rule (P := CountsOffers mark)
    (fun t env _ ht => ht.tickSent env)
    (fun t ht => ⟨⟨ht.pings.client, ht.pings.pings⟩, ht.mark_le, ht.packages, ht.bytes, ht.queue⟩)
    s envs h
  rcases hways with ⟨rc, heq⟩ | ⟨rc, heq⟩ | heq
  · rw [heq]
    exact ht
  · rw [heq]
    exact ht
  · rw [heq]
    exact ht

/-- The statistics: a report clears the counters, and packages leave the queue. -/
theorem stat_counters (qos : NwcQosProtocol) (now : UInt32) :
    (nwcQosStat qos now).1.sentQueue.Sublist qos.sentQueue ∧
      (((nwcQosStat qos now).2 = none ∧
          (nwcQosStat qos now).1.sentPackagesPerSecs = qos.sentPackagesPerSecs ∧
          (nwcQosStat qos now).1.sentBytes = qos.sentBytes) ∨
        ((nwcQosStat qos now).2.isSome ∧ (nwcQosStat qos now).1.sentPackagesPerSecs = 0 ∧
          (nwcQosStat qos now).1.sentBytes = 0)) := by
  refine ⟨stat_sentQueue_sublist qos now, ?_⟩
  unfold nwcQosStat
  split
  · exact Or.inl ⟨rfl, rfl, rfl⟩
  · dsimp only
    split
    · exact Or.inr ⟨rfl, rfl, rfl⟩
    · exact Or.inl ⟨rfl, rfl, rfl⟩

theorem CountsOffers.stat (h : CountsOffers mark s) (now : UInt32) :
    CountsOffers (if (nwcConnectionStat s now).2.isSome then s.sock.sends.length else mark)
      (nwcConnectionStat s now).1 := by
  obtain ⟨hqueue, hcount⟩ := stat_counters s.conn.qos now
  have hpings : OffersPings (nwcConnectionStat s now).1 := ⟨h.pings.client, h.pings.pings⟩
  rcases hcount with ⟨hnone, hpackages, hbytes⟩ | ⟨hsome, hpackages, hbytes⟩
  · have hmark : (nwcConnectionStat s now).2.isSome = false := by
      rw [show (nwcConnectionStat s now).2 = none from hnone]
      rfl
    rw [hmark]
    exact ⟨hpings, h.mark_le, hpackages.trans h.packages, hbytes.trans h.bytes,
      (hqueue.map _).trans h.queue⟩
  · have hsome' : (nwcConnectionStat s now).2.isSome = true := hsome
    rw [if_pos hsome']
    refine ⟨hpings, Nat.le_refl _, hpackages.trans ?_, hbytes.trans ?_,
      (hqueue.map _).trans h.queue⟩
    · show 0 = UInt32.ofNat (s.sock.sends.length - s.sock.sends.length)
      rw [Nat.sub_self]
      rfl
    · show 0 = UInt32.ofNat (1316 * (s.sock.sends.length - s.sock.sends.length))
      rw [Nat.sub_self]
      rfl

/-- Over a whole run the counters count what is offered. -/
theorem run_countsOffers {a a' : Accounting} {events : List ConnEvent}
    (h : CountsOffers a.mark a.outcome.session)
    (hrun : replay accountingStep a events = some a') :
    CountsOffers a'.mark a'.outcome.session := by
  refine replay_invariant (P := fun a => CountsOffers a.mark a.outcome.session)
    (I := fun _ => True) ?_ (fun _ _ => trivial) h hrun
  intro a ev a' _ h hstep
  obtain ⟨o, mark⟩ := a
  simp only [accountingStep] at hstep
  split at hstep
  · next o' ho =>
    cases hstep
    obtain ⟨rc, s, rfl⟩ := connStep_from ho
    cases ev with
    | recv arrival =>
      simp only [connStep] at ho
      split at ho
      · cases ho
        exact h.onRecv arrival
      · cases ho
    | tick env =>
      cases ho
      exact h.onSend env
    | stat now =>
      obtain ⟨-, rfl⟩ := connStep_stat ho
      exact h.stat now
    | writable soError env =>
      have hio : ∀ io, CountsOffers mark { s with io := io } := fun io =>
        ⟨⟨h.pings.client, h.pings.pings⟩, h.mark_le, h.packages, h.bytes, h.queue⟩
      simp only [connStep] at ho
      split at ho
      · cases ho
        exact (hio _).onSend env
      · cases ho
        exact hio _
  · cases hstep

/-! ## When that is what the transport took -/

/-- Packages taken whole are taken, 1316 bytes each. -/
theorem accepted_of_full {sends : List SendRecord} (hpings : ∀ r ∈ sends, IsPing r.buffer)
    (hfull : ∀ r ∈ sends, r.Full) :
    acceptedSends sends = sends ∧ acceptedBytes sends = 1316 * sends.length := by
  have hrc : ∀ r ∈ sends, r.rc = 1316 := by
    intro r hr
    have hlen := (hpings r hr).len
    have hf := hfull r hr
    unfold SendRecord.Full at hf
    omega
  have hall : acceptedSends sends = sends := by
    refine List.filter_eq_self.mpr fun r hr => ?_
    rw [hrc r hr]
    rfl
  have hsizes : sends.map (fun r => r.rc.toNat) = sends.map fun _ => 1316 := by
    refine List.map_congr_left fun r hr => ?_
    rw [hrc r hr]
    rfl
  refine ⟨hall, ?_⟩
  rw [acceptedBytes, hall, hsizes, List.map_const', List.sum_replicate_nat, Nat.mul_comm]

theorem acceptedSends_append (l l' : List SendRecord) :
    acceptedSends (l ++ l') = acceptedSends l ++ acceptedSends l' := List.filter_append ..

/-- The counters, as numbers. -/
theorem CountsOffers.packages_toNat {a : Accounting} (h : CountsOffers a.mark a.outcome.session)
    (hfits : 1316 * a.recent.length < 4294967296) :
    a.outcome.session.conn.qos.sentPackagesPerSecs.toNat = a.recent.length := by
  have hlen : a.recent.length = a.outcome.session.sock.sends.length - a.mark := List.length_drop
  rw [h.packages, UInt32.toNat_ofNat', ← hlen]
  omega

theorem CountsOffers.bytes_toNat {a : Accounting} (h : CountsOffers a.mark a.outcome.session)
    (hfits : 1316 * a.recent.length < 4294967296) :
    a.outcome.session.conn.qos.sentBytes.toNat = 1316 * a.recent.length := by
  have hlen : a.recent.length = a.outcome.session.sock.sends.length - a.mark := List.length_drop
  rw [h.bytes, UInt32.toNat_ofNat', ← hlen]
  omega

/-- One send that is not full, behind some that are. -/
theorem CountsOffers.not_accounted {a : Accounting} {pre : List SendRecord} {r : SendRecord}
    (h : CountsOffers a.mark a.outcome.session) (hfits : 1316 * a.recent.length < 4294967296)
    (hsends : a.sends = pre ++ [r]) (hmark : a.mark ≤ pre.length) (hpre : ∀ x ∈ pre, x.Full)
    (hr : ¬r.Full) : ¬a.Accounted := by
  intro hacc
  have hpings : ∀ x ∈ pre ++ [r], IsPing x.buffer := hsends ▸ h.pings.pings
  have hrecent : a.recent = pre.drop a.mark ++ [r] := by
    rw [Accounting.recent, hsends, List.drop_append_of_le_length hmark]
  have hsub : ∀ x ∈ pre.drop a.mark, x ∈ pre := fun x hx => List.mem_of_mem_drop hx
  obtain ⟨hall, htotal⟩ := accepted_of_full
    (fun x hx => hpings x (List.mem_append_left _ (hsub x hx))) fun x hx => hpre x (hsub x hx)
  by_cases hrc : 0 < r.rc
  · -- a part of the package was taken: the bytes are too many
    have hbytes := hacc.bytes
    have hone : acceptedSends [r] = [r] := List.filter_cons_of_pos (by simpa using hrc)
    have hsum : acceptedBytes a.recent = 1316 * (pre.drop a.mark).length + r.rc.toNat := by
      rw [hrecent, acceptedBytes, acceptedSends_append, List.map_append, List.sum_append,
        ← acceptedBytes, htotal, hone]
      rfl
    have hping := hpings r (List.mem_append_right _ (List.mem_singleton_self r))
    rw [h.bytes_toNat hfits, hsum, hrecent, List.length_append, List.length_singleton] at hbytes
    refine hr ?_
    rw [SendRecord.Full, hping.len]
    omega
  · -- nothing was taken: the packages are too many
    have hpackages := hacc.packages
    have hnone : acceptedSends [r] = [] := List.filter_cons_of_neg (by simpa using hrc)
    rw [h.packages_toNat hfits, hrecent, acceptedSends_append, hall, hnone, List.length_append,
      List.length_singleton, List.append_nil] at hpackages
    omega

/--
**When the counters count what was sent.**

In every run, and at every moment of it, the counters, the bytes and the queue of a client stand
for what the transport took since the last report, if it took every package whole so far and the
bytes of the window fit the counter. After the first package that it did not take whole they do not.
-/
theorem accounted_of_full (bandwidth : Int) (recvBuff : RecvBuffer) (stale : UInt32)
    (io : NwcTcpHandler) (events : List ConnEvent) (a : Accounting)
    (hrun : replay accountingStep (.start bandwidth recvBuff stale io) events = some a)
    (hfits : 1316 * a.recent.length < 4294967296) :
    ((∀ r ∈ a.sends, r.Full) → a.Accounted) ∧
      (∀ pre r, a.sends = pre ++ [r] → a.mark ≤ pre.length → (∀ x ∈ pre, x.Full) → ¬r.Full →
        ¬a.Accounted) := by
  have hcounts : CountsOffers a.mark a.outcome.session :=
    run_countsOffers ⟨⟨rfl, fun r hr => absurd hr List.not_mem_nil⟩, Nat.le_refl _, rfl, rfl,
      List.Sublist.refl _⟩ hrun
  have hpings : ∀ r ∈ a.sends, IsPing r.buffer := hcounts.pings.pings
  have hsub : ∀ r ∈ a.recent, r ∈ a.sends := fun r hr => List.mem_of_mem_drop hr
  refine ⟨?_, fun _ _ => hcounts.not_accounted hfits⟩
  intro hfull
  obtain ⟨hall, -⟩ := accepted_of_full hpings hfull
  obtain ⟨hall', htotal⟩ := accepted_of_full (fun r hr => hpings r (hsub r hr))
    fun r hr => hfull r (hsub r hr)
  refine ⟨?_, ?_, ?_⟩
  · rw [hall']
    exact hcounts.packages_toNat hfits
  · rw [htotal]
    exact hcounts.bytes_toNat hfits
  · rw [hall]
    exact hcounts.queue

/-- A client with default bandwidth on an established handler. -/
def Accounting.sample : Accounting :=
  .start 0 RecvBuffer.zero 0 { nwcTcpHandlerInit true with state := .established }

/-- One package taken whole. -/
theorem wholePackage_accounted : ∃ a,
    replay accountingStep .sample [.tick [SendEnv.sample (.done 1316)]] = some a ∧
      a.Accounted := by
  obtain ⟨a, ha⟩ := Option.isSome_iff_exists.mp
    (show (replay accountingStep .sample
      [.tick [SendEnv.sample (.done 1316)]]).isSome by decide +kernel)
  have hview : (replay accountingStep .sample
      [.tick [SendEnv.sample (.done 1316)]]).map
        (fun a => (a.recent.length, decide (∀ r ∈ a.sends, r.Full))) = some (1, true) := by
    decide +kernel
  rw [ha] at hview
  obtain ⟨hlen, hfull⟩ := Prod.mk.inj (Option.some.inj hview)
  refine ⟨a, ha, (accounted_of_full 0 RecvBuffer.zero 0
    { nwcTcpHandlerInit true with state := .established } _ a ha ?_).1 (of_decide_eq_true hfull)⟩
  rw [hlen]
  decide

/-- One package refused: it is counted as sent, and waits in the queue to be counted as lost. -/
theorem refusedPackage_not_accounted : ∃ a,
    replay accountingStep .sample [.tick [SendEnv.sample (.failed EAGAIN)]] = some a ∧
      ¬a.Accounted := by
  obtain ⟨a, ha⟩ := Option.isSome_iff_exists.mp
    (show (replay accountingStep .sample
      [.tick [SendEnv.sample (.failed EAGAIN)]]).isSome by decide +kernel)
  have hview : (replay accountingStep .sample
      [.tick [SendEnv.sample (.failed EAGAIN)]]).map
        (fun a => (a.outcome.session.conn.qos.sentPackagesPerSecs.toNat,
          (acceptedSends a.recent).length)) = some (1, 0) := by
    decide +kernel
  rw [ha] at hview
  obtain ⟨hcounted, htaken⟩ := Prod.mk.inj (Option.some.inj hview)
  refine ⟨a, ha, fun hacc => ?_⟩
  have hpackages := hacc.packages
  rw [hcounted, htaken] at hpackages
  exact absurd hpackages (by decide)

end Nwchecker
