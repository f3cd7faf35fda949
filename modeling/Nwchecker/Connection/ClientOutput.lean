import Nwchecker.Lib.Transfer
import Nwchecker.Connection.Stream

/-!
# The output of a client

Every package of a client is a header and 1300 bytes of payload. `nwc_connection_on_send` makes a
new package for every call of `nwc_io_send`, also when the one before was taken only in part, so
the stream is framed as long as no package but the last one is cut short
(`clientOutput_framed`).
-/

namespace Nwchecker

open Words Framing Loop Machine

/-- A package of a client: the header and 1300 bytes of payload. -/
structure IsPing (f : List UInt8) : Prop where
  len : f.length = 1316
  length : (NwcQosHdr.ofBytes f).length = 1300

theorem IsPing.isFrame {f : List UInt8} (h : IsPing f) :
    qosFormat.IsFrame f ∧ f.length ≤ RECV_BUFFER_LEN := by
  have hlen := h.len
  refine ⟨⟨?_, ?_⟩, ?_⟩
  · rw [hlen]
    decide
  · rw [qosFormat_frameLen, h.length, hlen]
    rfl
  · rw [hlen]
    decide

theorem createPackage_isPing (env : SendEnv) (s : Session) :
    IsPing (createPackage env s).2.bytes where
  len := by
    have hblock := env.block.size
    simp only [createPackage, nwcQosCreatePackage, NwcPackage.bytes_length, List.length_append,
      List.length_drop, hblock]
    rfl
  length := by
    rw [NwcPackage.bytes, NwcQosHdr.ofBytes_bytes]
    rfl

/-- The packages that the transport took, in full or in part. -/
def sentPackages (s : Session) : List (List UInt8) :=
  (s.sock.sends.filter fun r => 0 < r.rc).map SendRecord.buffer

/-- A send that failed put nothing on the wire. -/
theorem accepted_eq (sock : Socket) :
    sock.accepted = ((sock.sends.filter fun r => 0 < r.rc).map SendRecord.taken).flatten := by
  unfold Socket.accepted
  induction sock.sends with
  | nil => rfl
  | cons r rs ih =>
    by_cases hr : 0 < r.rc
    · rw [List.filter_cons_of_pos (by simpa using hr)]
      simp only [List.map_cons, List.flatten_cons, ih]
    · have hnone : r.taken = [] := by
        rw [SendRecord.taken, Int.toNat_of_nonpos (by omega)]
        rfl
      rw [List.filter_cons_of_neg (by simpa using hr), List.map_cons, List.flatten_cons, hnone, ih]
      rfl

/-- A client that has offered nothing but its packages. -/
structure OffersPings (s : Session) : Prop where
  client : s.conn.mode = .client
  pings : ∀ r ∈ s.sock.sends, IsPing r.buffer

/-- Reading sends nothing. -/
theorem OffersPings.onRecv {s : Session} (h : OffersPings s) (a : Arrival) :
    OffersPings (nwcConnectionOnRecv s a).session := by
  rcases onRecv_cases s a with ⟨errno, -, ⟨-, heq⟩ | ⟨-, rc, heq⟩⟩ | ⟨-, heq⟩ |
    ⟨data, -, -, -, heq⟩
  · rw [heq]
    exact h
  · rw [heq]
    exact ⟨h.client, h.pings⟩
  · rw [heq]
    exact ⟨h.client, h.pings⟩
  · obtain ⟨hmode, -, hsock⟩ := afterLoop_untouched a.recvTs a.env (parseEntry s data)
    rw [heq]
    refine ⟨hmode.trans h.client, ?_⟩
    rw [hsock h.client]
    exact h.pings

theorem OffersPings.tickSent {s : Session} (h : OffersPings s) (env : SendEnv) :
    OffersPings (tickSent env s) := by
  refine ⟨(tickSent_mode env s).trans h.client, ?_⟩
  rw [Nwchecker.tickSent, nwcIoSend_session]
  intro r hr
  rcases List.mem_append.mp hr with hr | hr
  · exact h.pings r hr
  · rw [List.mem_singleton.mp hr]
    exact createPackage_isPing env s

theorem OffersPings.onSend {s : Session} (h : OffersPings s) (envs : List SendEnv) :
    OffersPings (nwcConnectionOnSend s envs).session := by
  obtain ⟨t, ht, hways⟩ := onSend_rule (P := OffersPings) (fun t env _ ht => ht.tickSent env)
    (fun t ht => ⟨ht.client, ht.pings⟩) s envs h
  rcases hways with ⟨rc, heq⟩ | ⟨rc, heq⟩ | heq
  · rw [heq]
    exact ht
  · rw [heq]
    exact ht
  · rw [heq]
    exact ht

/-- Over a whole run a client offers nothing but its packages. -/
theorem run_offersPings {o o' : Outcome} {events : List ConnEvent} (h : OffersPings o.session)
    (hrun : replay connStep o events = some o') : OffersPings o'.session := by
  refine replay_invariant (P := fun o => OffersPings o.session) (I := fun _ => True)
    (fun o ev o' _ hQ hstep => ?_) (fun _ _ => trivial) h hrun
  refine connStep_rule (P := OffersPings) (Q := fun o => OffersPings o.session)
    (fun rc s => Iff.rfl) (fun s io hP => ⟨hP.client, hP.pings⟩) (fun s a hP _ => hP.onRecv a)
    (fun s env hP => hP.onSend env) (fun s now _ hP => ⟨hP.client, hP.pings⟩) o ev o' hQ hstep

/-- The packages are the whole truth about the output, also for the other end of the line. -/
structure OutputFramed (s : Session) : Prop where
  pings : ∀ f ∈ sentPackages s, IsPing f
  isInitial : s.sock.accepted <+: (sentPackages s).flatten
  /-- Whoever reads the stream, cut in any way, gets the packages that have arrived in full. -/
  recovered : ∀ mode bandwidth recvBuff stale io events rc t,
    replay connStep
      (.returned 0 (Session.opened (nwcConnectionInit mode bandwidth recvBuff stale) io)) events
        = some (.returned rc t) →
    t.sock.delivered <+: s.sock.accepted →
    t.handed = fullyReceived (sentPackages s) t.sock.delivered.length

theorem keeps_true : Keeps fun _ _ _ => True where
  processed := fun _ _ _ _ => trivial
  answered := fun _ _ _ _ _ _ _ => trivial
  sent := fun _ _ _ _ => trivial

/-- What a reader of a package stream has processed when its last callback has returned. -/
theorem reader_recovers {stream : List (List UInt8)} (hst : PackageStream stream) {mode : Mode}
    {bandwidth : Int} {recvBuff : RecvBuffer} {stale : UInt32} {io : NwcTcpHandler}
    {events : List ConnEvent} {rc : Int} {t : Session}
    (hrun : replay connStep
      (.returned 0 (Session.opened (nwcConnectionInit mode bandwidth recvBuff stale) io)) events
        = some (.returned rc t))
    (hp : t.sock.delivered <+: stream.flatten) :
    t.handed = fullyReceived stream t.sock.delivered.length := by
  obtain ⟨hord, hrest, -⟩ := run_onStream keeps_true hst
    (opened_follows (nwcConnectionInit mode bandwidth recvBuff stale) io rfl trivial) hrun hp
  have hparsed : Parsed qosFormat t.sock.delivered t.handed t.conn.leftover :=
    ⟨hord.eq, hord.frames, hrest⟩
  exact hparsed.eq_fullyReceived (fun f hf => (hst f hf).1) hp

/--
**The output of a client is framed while no package but the last is cut short.**

After any run in which `nwc_io_send` took every package in full that it took at all, the last one
excepted, the stream is a prefix of the packages, and its reader recovers them.
-/
theorem clientOutput_framed (bandwidth : Int) (recvBuff : RecvBuffer) (stale : UInt32)
    (io : NwcTcpHandler) (events : List ConnEvent) (o : Outcome)
    (hrun : replay connStep
      (.returned 0 (Session.opened (nwcConnectionInit .client bandwidth recvBuff stale) io)) events
        = some o)
    (hfull : ∀ r ∈ (o.session.sock.sends.filter fun r => 0 < r.rc).dropLast, r.Full) :
    OutputFramed o.session := by
  have hoffers : OffersPings o.session :=
    run_offersPings ⟨rfl, fun r hr => absurd hr List.not_mem_nil⟩ hrun
  have hpings : ∀ f ∈ sentPackages o.session, IsPing f := by
    intro f hf
    obtain ⟨r, hr, rfl⟩ := List.mem_map.mp hf
    exact hoffers.pings r (List.mem_of_mem_filter hr)
  have hinitial : o.session.sock.accepted <+: (sentPackages o.session).flatten := by
    rw [accepted_eq]
    exact Transfer.flatten_isInitial (fun r hr => (hfull r hr).taken_eq)
      (fun r _ => List.take_prefix _ _)
  refine ⟨hpings, hinitial, ?_⟩
  intro mode bandwidth' recvBuff' stale' io' events' rc t hpeer hp
  exact reader_recovers (fun f hf => (hpings f hf).isFrame) hpeer (hp.trans hinitial)

/-- A pass of the send loop at time zero, in zeroed memory. -/
def SendEnv.sample (call : SysCall Nat) : SendEnv where
  now := 0
  block := { bytes := List.replicate 1316 0, size := List.length_replicate }
  call := call

/-- The workers run: one package in full and a part of the next. -/
theorem shortLast_framed : ∃ o,
    replay connStep (.returned 0 (Session.sample .client))
        [.stat 1, .tick [SendEnv.sample (.done 1316), SendEnv.sample (.done 1000)]] = some o ∧
      OutputFramed o.session := by
  obtain ⟨o, ho⟩ := Option.isSome_iff_exists.mp
    (show (replay connStep (.returned 0 (Session.sample .client))
      [.stat 1, .tick [SendEnv.sample (.done 1316), SendEnv.sample (.done 1000)]]).isSome by
        decide +kernel)
  have hview : (replay connStep (.returned 0 (Session.sample .client))
      [.stat 1, .tick [SendEnv.sample (.done 1316), SendEnv.sample (.done 1000)]]).map
        (fun o => decide (∀ r ∈ (o.session.sock.sends.filter fun r => 0 < r.rc).dropLast, r.Full))
      = some true := by decide +kernel
  rw [ho] at hview
  refine ⟨o, ho, clientOutput_framed 0 RecvBuffer.zero 0
    { nwcTcpHandlerInit true with state := .established } _ o ho ?_⟩
  exact of_decide_eq_true (Option.some.inj hview)

/-- A short write followed by another package: the second header is not where it should be. -/
theorem shortFirst_not_framed : ∃ o,
    replay connStep (.returned 0 (Session.sample .client))
        [.tick [SendEnv.sample (.done 1000), SendEnv.sample (.done 1316)]] = some o ∧
      ¬∃ fs : List (List UInt8), (∀ f ∈ fs, IsPing f) ∧ o.session.sock.accepted <+: fs.flatten := by
  obtain ⟨o, ho⟩ := Option.isSome_iff_exists.mp
    (show (replay connStep (.returned 0 (Session.sample .client))
      [.tick [SendEnv.sample (.done 1000), SendEnv.sample (.done 1316)]]).isSome by decide +kernel)
  have hview : (replay connStep (.returned 0 (Session.sample .client))
      [.tick [SendEnv.sample (.done 1000), SendEnv.sample (.done 1316)]]).map
        (fun o => (o.session.sock.accepted.length,
          (o.session.sock.accepted.drop 1316).take qosHdrLen))
      = some (2316, List.replicate 16 0) := by decide +kernel
  rw [ho] at hview
  obtain ⟨hlen, hsecond⟩ := Prod.mk.inj (Option.some.inj hview)
  refine ⟨o, ho, ?_⟩
  rintro ⟨fs, hfs, t, ht⟩
  have htotal := congrArg List.length ht
  rw [List.length_append, hlen] at htotal
  match fs with
  | [] => simp at htotal
  | [f] =>
    have hf := (hfs f List.mem_cons_self).len
    simp only [List.flatten_cons, List.flatten_nil, List.append_nil, hf] at htotal
    omega
  | f :: g :: fs =>
    -- the header of the second package would be sixteen zero bytes
    have hf := (hfs f List.mem_cons_self).len
    have hg := hfs g (List.mem_cons_of_mem _ List.mem_cons_self)
    have hdrop := congrArg (fun l => (l.drop 1316).take qosHdrLen) ht
    simp only [List.flatten_cons] at hdrop
    rw [List.drop_left' hf, List.drop_append_of_le_length (by omega),
      List.take_append_of_le_length (by rw [List.length_drop, hlen]; decide), hsecond,
      List.take_append_of_le_length (by rw [hg.len]; decide)] at hdrop
    have hlength := hg.length
    rw [← NwcQosHdr.ofBytes_take (Nat.le_refl qosHdrLen), ← hdrop] at hlength
    revert hlength
    decide

end Nwchecker
