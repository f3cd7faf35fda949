import Mathlib.Data.List.Forall2
import Nwchecker.Lib.Transfer
import Nwchecker.Connection.Stream

/-!
# The answers of a server

A server answers each package with an ack of 20 bytes. `nwc_connection_on_recv` offers the ack to
the socket once and goes on to the next package whatever `send` took of it, so the wire carries
the acks exactly when `send` takes every one of them in full (`answersExactly_iff`).
-/

namespace Nwchecker

open Words Framing Loop Machine

/-- `sizeof(struct nwc_qos_hdr) + 4` -/
def ackLen : Nat := 20

/-- `ack` is a complete ack frame for the request `req`. -/
structure IsAckOf (req ack : List UInt8) : Prop where
  len : ack.length = ackLen
  ackTimestamp : (NwcQosHdr.ofBytes ack).ackTimestamp = (NwcQosHdr.ofBytes req).timestamp
  length : (NwcQosHdr.ofBytes ack).length = 4
  data : ack.drop qosHdrLen = pongData

instance (req ack : List UInt8) : Decidable (IsAckOf req ack) :=
  decidable_of_iff (ack.length = ackLen ∧
      (NwcQosHdr.ofBytes ack).ackTimestamp = (NwcQosHdr.ofBytes req).timestamp ∧
      (NwcQosHdr.ofBytes ack).length = 4 ∧ ack.drop qosHdrLen = pongData)
    ⟨fun ⟨h1, h2, h3, h4⟩ => ⟨h1, h2, h3, h4⟩, fun ⟨h1, h2, h3, h4⟩ => ⟨h1, h2, h3, h4⟩⟩

theorem ackPackage_isAckOf (recvTs : UInt32) (req : List UInt8) (env : PassEnv) :
    IsAckOf req (ackPackage recvTs (NwcQosHdr.ofBytes req) env).bytes where
  len := rfl
  ackTimestamp := by
    rw [NwcPackage.bytes, NwcQosHdr.ofBytes_bytes]
    rfl
  length := by
    rw [NwcPackage.bytes, NwcQosHdr.ofBytes_bytes]
    rfl
  data := by
    rw [NwcPackage.bytes]
    exact List.drop_left' rfl

/-- Bytes that are a prefix of one ack for each request, in the order of the requests. -/
def AckStream (reqs : List (List UInt8)) (bytes : List UInt8) : Prop :=
  ∃ acks, List.Forall₂ IsAckOf reqs acks ∧ bytes <+: acks.flatten

/--
The server answers exactly: what it put on the connection is a prefix of the acks, and the acks
of the requests it has consumed are there to the last byte. The second part is what "no ack is
lost or truncated" means, for nothing in the connection remembers the missing bytes of an ack.
-/
structure AnswersExactly (reqs : List (List UInt8)) (s : Session) : Prop where
  ackStream : AckStream reqs s.sock.accepted
  complete : ackLen * s.handed.length ≤ s.sock.accepted.length

/-- Each request consumed was answered once. -/
def Paired : Mode → List (List UInt8) → List SendRecord → Prop :=
  fun mode handed sends =>
    mode = .server ∧ List.Forall₂ (fun req send => IsAckOf req send.buffer) handed sends

theorem keeps_paired : Keeps Paired where
  processed := by
    rintro hs ss f ⟨hm, -⟩
    cases hm
  answered := by
    rintro hs ss f recvTs env - ⟨-, hpair⟩
    exact ⟨rfl, List.rel_append hpair (List.Forall₂.cons (ackPackage_isAckOf recvTs f env) .nil)⟩
  sent := by
    rintro hs ss send ⟨hm, -⟩
    cases hm

/-- Every package can be answered. -/
theorem exists_acks (reqs : List (List UInt8)) : ∃ acks, List.Forall₂ IsAckOf reqs acks := by
  refine ⟨reqs.map fun req => (ackPackage 0 (NwcQosHdr.ofBytes req) steadyEnv).bytes, ?_⟩
  rw [List.forall₂_map_right_iff, List.forall₂_same]
  exact fun req _ => ackPackage_isAckOf 0 req steadyEnv

theorem taken_isInitial (r : SendRecord) : r.taken <+: r.buffer := List.take_prefix _ _

theorem acks_length {handed : List (List UInt8)} {sends : List SendRecord}
    (h : List.Forall₂ (fun req send => IsAckOf req send.buffer) handed sends) :
    (sends.map SendRecord.buffer).flatten.length = ackLen * handed.length := by
  induction h with
  | nil => rfl
  | cons hack _ ih =>
    simp only [List.map_cons, List.flatten_cons, List.length_append, List.length_cons, ih, hack.len]
    rw [Nat.mul_succ, Nat.add_comm]

theorem buffer_length {handed : List (List UInt8)} {sends : List SendRecord}
    (h : List.Forall₂ (fun req send => IsAckOf req send.buffer) handed sends) :
    ∀ r ∈ sends, r.buffer.length = ackLen := by
  induction h with
  | nil => exact fun r hr => absurd hr List.not_mem_nil
  | cons hack _ ih =>
    intro r hr
    rcases List.mem_cons.mp hr with rfl | hr
    · exact hack.len
    · exact ih r hr

/-- The requests consumed and the acks offered, in every outcome of a run of a server. -/
theorem server_paired {reqs : List (List UInt8)} (hst : PackageStream reqs) {bandwidth : Int}
    {recvBuff : RecvBuffer} {stale : UInt32} {io : NwcTcpHandler} {events : List ConnEvent}
    {o : Outcome}
    (hrun : replay connStep
      (.returned 0 (Session.opened (nwcConnectionInit .server bandwidth recvBuff stale) io)) events
        = some o)
    (hp : o.session.sock.delivered <+: reqs.flatten) :
    o.session.handed <+: reqs ∧
      List.Forall₂ (fun req send => IsAckOf req send.buffer) o.session.handed
        o.session.sock.sends := by
  have hon := run_onStream keeps_paired hst
    (opened_follows (nwcConnectionInit .server bandwidth recvBuff stale) io rfl ⟨rfl, .nil⟩) hrun hp
  cases o with
  | returned rc s =>
    obtain ⟨hord, -, -, hpair⟩ := hon
    exact ⟨hord.handed_isInitial hst hp, hpair⟩
  | closed rc s =>
    obtain ⟨⟨r, hord⟩, -, hpair⟩ := hon
    exact ⟨hord.handed_isInitial hst hp, hpair⟩
  | inLoop s =>
    obtain ⟨⟨r, hord⟩, -, hpair⟩ := hon
    exact ⟨hord.handed_isInitial hst hp, hpair⟩
  | wild s => exact hon.elim

/--
**When a server answers exactly.**

At every moment of every run on a stream of requests: exactly when `send` has taken every ack in
full. A short write truncates its ack, `-EAGAIN` loses it.
-/
theorem answersExactly_iff (reqs : List (List UInt8)) (hst : PackageStream reqs) (bandwidth : Int)
    (recvBuff : RecvBuffer) (stale : UInt32) (io : NwcTcpHandler) (events : List ConnEvent)
    (o : Outcome)
    (hrun : replay connStep
      (.returned 0 (Session.opened (nwcConnectionInit .server bandwidth recvBuff stale) io)) events
        = some o)
    (hp : o.session.sock.delivered <+: reqs.flatten)
    (hsend : ∀ r ∈ o.session.sock.sends, r.rc ≤ r.buffer.length) :
    AnswersExactly reqs o.session ↔ ∀ r ∈ o.session.sock.sends, r.Full := by
  obtain ⟨⟨more, rfl⟩, hpair⟩ := server_paired hst hrun hp
  have htaken : ∀ r ∈ o.session.sock.sends, r.taken <+: r.buffer := fun r _ => taken_isInitial r
  constructor
  · intro hexact r hr
    have hall := Transfer.taken_eq_of_length htaken (by
      rw [acks_length hpair]
      exact hexact.complete) r hr
    have hlen := buffer_length hpair r hr
    have hle := hsend r hr
    have htake : min r.rc.toNat r.buffer.length = r.buffer.length := by
      rw [← List.length_take]
      exact congrArg List.length hall
    unfold SendRecord.Full
    unfold ackLen at hlen
    omega
  · intro hfull
    have hacc : o.session.sock.accepted = (o.session.sock.sends.map SendRecord.buffer).flatten :=
      Transfer.flatten_of_all fun r hr => (hfull r hr).taken_eq
    obtain ⟨acks, hacks⟩ := exists_acks more
    refine ⟨⟨o.session.sock.sends.map SendRecord.buffer ++ acks, ?_, ?_⟩, ?_⟩
    · exact List.rel_append (List.forall₂_map_right_iff.mpr hpair) hacks
    · rw [hacc, List.flatten_append]
      exact List.prefix_append _ _
    · rw [hacc, acks_length hpair]

/-- Two empty requests in one segment, and what the two sends return. -/
def Arrival.twoRequests (first second : SysCall Nat) : Arrival where
  call := .done (List.replicate 32 0)
  recvTs := 0
  env := [{ steadyEnv with call := first }, { steadyEnv with call := second }, steadyEnv]

theorem twoRequests_stream : PackageStream [List.replicate 16 0, List.replicate 16 0] := by
  intro f hf
  have : f = List.replicate 16 0 := by simpa using hf
  rw [this]
  decide

/-- Both acks go out in full. -/
theorem twoRequests_answered : ∃ o,
    replay connStep (.returned 0 (Session.sample .server))
        [.recv (Arrival.twoRequests (.done 20) (.done 20))] = some o ∧
      AnswersExactly [List.replicate 16 0, List.replicate 16 0] o.session := by
  obtain ⟨o, ho⟩ := Option.isSome_iff_exists.mp
    (show (replay connStep (.returned 0 (Session.sample .server))
      [.recv (Arrival.twoRequests (.done 20) (.done 20))]).isSome by decide +kernel)
  have hview : (replay connStep (.returned 0 (Session.sample .server))
      [.recv (Arrival.twoRequests (.done 20) (.done 20))]).map
        (fun o => (o.session.sock.delivered,
          o.session.sock.sends.map fun r => (r.rc, r.buffer.length)))
      = some (List.replicate 32 0, [(20, 20), (20, 20)]) := by decide +kernel
  rw [ho] at hview
  obtain ⟨hdel, hsends⟩ := Prod.mk.inj (Option.some.inj hview)
  have hfull : ∀ r ∈ o.session.sock.sends, r.Full := by
    intro r hr
    have : (r.rc, r.buffer.length) ∈ [((20 : Int), 20), (20, 20)] := by
      rw [← hsends]
      exact List.mem_map_of_mem hr
    have hpair : r.rc = 20 ∧ r.buffer.length = 20 := by simpa using this
    rw [SendRecord.Full, hpair.1, hpair.2]
    rfl
  refine ⟨o, ho, (answersExactly_iff _ twoRequests_stream 0 RecvBuffer.zero 0
    { nwcTcpHandlerInit true with state := .established } _ o ho ?_ ?_).mpr hfull⟩
  · rw [hdel]
    decide
  · intro r hr
    rw [hfull r hr]

/-- The first ack is cut after ten bytes and the second one follows at once. -/
theorem twoRequests_truncated : ∃ o,
    replay connStep (.returned 0 (Session.sample .server))
        [.recv (Arrival.twoRequests (.done 10) (.done 20))] = some o ∧
      o.session.sock.delivered <+: [List.replicate 16 0, List.replicate 16 0].flatten ∧
      ¬AckStream [List.replicate 16 0, List.replicate 16 0] o.session.sock.accepted := by
  obtain ⟨o, ho⟩ := Option.isSome_iff_exists.mp
    (show (replay connStep (.returned 0 (Session.sample .server))
      [.recv (Arrival.twoRequests (.done 10) (.done 20))]).isSome by decide +kernel)
  have hview : (replay connStep (.returned 0 (Session.sample .server))
      [.recv (Arrival.twoRequests (.done 10) (.done 20))]).map
        (fun o => (o.session.sock.delivered, o.session.sock.accepted))
      = some (List.replicate 32 0, List.replicate 22 0 ++ [4, 0, 0, 0] ++ pongData) := by
    decide +kernel
  rw [ho] at hview
  obtain ⟨hdel, hacc⟩ := Prod.mk.inj (Option.some.inj hview)
  refine ⟨o, ho, ?_, ?_⟩
  · rw [hdel]
    decide
  · rintro ⟨acks, hacks, hpre⟩
    rw [hacc] at hpre
    cases hacks with
    | @cons _ ack _ _ hfirst _ =>
      -- the first ack would be twenty zero bytes, and so would be its length field
      obtain ⟨t, ht⟩ := hpre
      have hack := congrArg (List.take ackLen) ht
      rw [List.flatten_cons, List.take_left' hfirst.len] at hack
      have hzero : ack = List.replicate 20 0 := by
        rw [← hack]
        rfl
      have hlen := hfirst.length
      rw [hzero] at hlen
      revert hlen
      decide

end Nwchecker
