import Nwchecker.Connection.Segmentation

/-!
# Room in the receive buffer

`nwc_connection_on_recv` asks `recv` for `RECV_BUFFER_LEN - nwc->rbytes` bytes and takes 0 for the
end of the stream. It does not look at how long a package claims to be. One that is longer than the
buffer fills it, the next call asks for 0 bytes, and the connection is closed although its peer is
still there.
-/

namespace Nwchecker

open Words Framing Loop Machine

/-- The whole buffer is held, and the package in front is longer than it. -/
def FillsBuffer (l : List UInt8) : Prop :=
  l.length = RECV_BUFFER_LEN ∧ RECV_BUFFER_LEN < qosFormat.frameLen l

instance (l : List UInt8) : Decidable (FillsBuffer l) := inferInstanceAs (Decidable (_ ∧ _))

/-- The answers of one call, as a stream. What comes behind the last one is not used. -/
def Arrival.envAt (a : Arrival) (i : Nat) : PassEnv := a.env.getD i steadyEnv

/--
The bytes held do not fill the buffer, and no header behind the complete packages has an
overflowing length field, or a server stops before it gets there.
-/
def KeepsRoom (s : Session) (a : Arrival) : Prop :=
  ∀ data, a.call.final = .ok data →
    ¬FillsBuffer (s.conn.leftover ++ data) ∧
      (Overflows (cut qosFormat (s.conn.leftover ++ data)).2 →
        s.conn.mode = .server ∧
          ¬Answered s.io.canSend a.envAt (cut qosFormat (s.conn.leftover ++ data)).1.length)

/-- Every event of `nwc_connection_on_recv` keeps room. -/
def RoomKept : Outcome → ConnEvent → Prop
  | .returned _ s, .recv a => KeepsRoom s a
  | _, _ => True

/-- The callback that returned last left room for the next `recv`. -/
def Outcome.HasRoom : Outcome → Prop
  | .returned _ s => s.conn.rbytes < RECV_BUFFER_LEN
  | .closed _ _ => True
  | .inLoop _ => True
  | .wild _ => False

/--
If `nwc_connection_on_recv` closes the connection, then because `recv` was asked for something and
reported the end of the stream or an error, or because an ack could not be sent.
-/
def ClosedForReason : Outcome → ConnEvent → Prop
  | .returned _ s, .recv a =>
    ∀ rc t, nwcConnectionOnRecv s a = .closed rc t →
      (0 < s.conn.recvRequest ∧ ¬a.Segment) ∨
        (s.conn.mode = .server ∧ ∃ env ∈ a.env, HardError env.call)
  | _, _ => True

/-- What is left behind the complete packages of a buffer is less than the buffer. -/
theorem rest_lt {l : List UInt8} (hle : l.length ≤ RECV_BUFFER_LEN) (h : ¬FillsBuffer l) :
    (cut qosFormat l).2.length < RECV_BUFFER_LEN := by
  by_cases hc : qosFormat.Complete l
  · -- at least one package is off the front
    rw [cut_complete hc]
    have hpos := frameLen_pos (F := qosFormat) l
    have hle' : (cut qosFormat (l.drop (qosFormat.frameLen l))).2.length
        ≤ (l.drop (qosFormat.frameLen l)).length := by
      have heq := congrArg List.length (cut_parsed (F := qosFormat)
        (l.drop (qosFormat.frameLen l))).eq
      rw [List.length_append] at heq
      omega
    rw [List.length_drop] at hle'
    have := hc.2
    dsimp only
    omega
  · rw [cut_incomplete hc]
    dsimp only
    refine Nat.lt_of_le_of_ne hle fun heq => hc ?_
    have hshort : ¬RECV_BUFFER_LEN < qosFormat.frameLen l := fun hlong => h ⟨heq, hlong⟩
    refine ⟨?_, by omega⟩
    rw [heq]
    decide

variable {s : Session} {a : Arrival} {recvTs : UInt32} {envs : List PassEnv}

/-! ## Why the loop closes -/

theorem parsePass_closed {env : PassEnv} {p : ParseState} {t : Session}
    (h : parsePass recvTs env p = .leave (.closed t)) :
    p.session.conn.mode = .server ∧ HardError env.call := by
  rcases parsePass_cases recvTs env p with ⟨r, heq, -, hopen⟩ | ⟨-, heq⟩ |
    ⟨hm, pkg, t', -, ⟨hhard, -⟩ | heq⟩ | ⟨-, pkg, t', heq, -⟩
  · rw [heq] at h
    exact absurd (Flow.leave.inj h) (hopen t)
  · rw [heq] at h
    cases h
  · exact ⟨hm, hhard⟩
  · rw [heq] at h
    cases h
  · rw [heq] at h
    cases h

/-- The loop closes the connection for a failed send only. -/
theorem passes_closed {p : ParseState} {t : Session}
    (h : passes (parsePass recvTs) envs p = .leave (.closed t)) :
    p.session.conn.mode = .server ∧ ∃ env ∈ envs, HardError env.call := by
  have hrule : ∀ r, passes (parsePass recvTs) envs p = .leave r → ∀ t, r = .closed t →
      p.session.conn.mode = .server ∧ ∃ env ∈ envs, HardError env.call :=
    (passes_rule (I := fun env => env ∈ envs)
      (P := fun q => q.session.conn.mode = p.session.conn.mode)
      (fun env q q' _ hq hb => ((parsePass_untouched recvTs env q).1 q' hb).mode.trans hq)
      (fun env q r henv hq hb t hr => by
        subst hr
        obtain ⟨hm, hhard⟩ := parsePass_closed hb
        exact ⟨hq.symm.trans hm, env, henv, hhard⟩)
      envs (fun _ henv => henv) rfl).2
  exact hrule _ h t rfl

theorem onRecv_forReason (h : s.conn.rbytes < RECV_BUFFER_LEN) {rc : Int} {t : Session}
    (hclosed : nwcConnectionOnRecv s a = .closed rc t) :
    (0 < s.conn.recvRequest ∧ ¬a.Segment) ∨
      (s.conn.mode = .server ∧ ∃ env ∈ a.env, HardError env.call) := by
  have hreq : 0 < s.conn.recvRequest := by
    unfold NwcConnection.recvRequest
    omega
  rcases onRecv_cases s a with ⟨errno, hfin, ⟨-, heq⟩ | ⟨hne, -⟩⟩ | ⟨hfin, -⟩ |
    ⟨data, -, -, -, heq⟩
  · rw [heq] at hclosed
    cases hclosed
  · refine Or.inl ⟨hreq, ?_⟩
    simp [Arrival.Segment, hfin, hne]
  · refine Or.inl ⟨hreq, ?_⟩
    simp [Arrival.Segment, hfin]
  · right
    rw [heq] at hclosed
    rcases hp : passes (parsePass a.recvTs) a.env (parseEntry s data) with p | p | u | p
    · rw [hp] at hclosed
      cases hclosed
    · rw [hp, afterLoop, recvFinish] at hclosed
      split at hclosed
      · split at hclosed <;> cases hclosed
      · cases hclosed
    · exact passes_closed hp
    · rw [hp] at hclosed
      cases hclosed

/-! ## What a call leaves in the buffer -/

/-- Where the loop is left, as long as no overflowing rest is taken for a package. -/
theorem loop_leaves {data : List UInt8} (h : data.length ≤ s.conn.recvRequest)
    {fs : List (List UInt8)} {rest : List UInt8} {e : Nat → PassEnv}
    (hcut : cut qosFormat (s.conn.leftover ++ data) = (fs, rest))
    (hno : Overflows rest → s.conn.mode = .server ∧ ¬Answered s.io.canSend e fs.length)
    {r : ParseExit} (hr : LeavesWith (parsePass recvTs) e (parseEntry s data) r) :
    (∃ p, r = .drained p ∧
        PackagesDone (s.conn.rbytes + data.length) fs rest s.conn.mode fs.length p) ∨
      ∃ t, r = .closed t := by
  obtain ⟨k, p, hp, hb⟩ := hr.last
  obtain ⟨j, hdone, -⟩ := heads_done s h hcut hno hp
  by_cases ha : Accepted p.todo
  · right
    cases hm : s.conn.mode with
    | client =>
      rw [parsePass_client hdone.inside (hdone.mode_eq.trans hm) ha] at hb
      cases hb
    | server =>
      cases hs : p.session.io.canSend with
      | true =>
        rw [parsePass_server recvTs (e k) hdone.inside (hdone.mode_eq.trans hm) hs ha] at hb
        split at hb
        · exact ⟨_, (Flow.leave.inj hb).symm⟩
        · cases hb
      | false =>
        rw [parsePass_stuck hdone.inside (hdone.mode_eq.trans hm) hs ha] at hb
        cases hb
  · left
    rw [parsePass_drained hdone.inside ha] at hb
    have hj : j = fs.length := by
      by_contra hne
      exact ha (hdone.accepted_iff.mpr (Or.inl (Nat.lt_of_le_of_ne hdone.le hne)))
    subst hj
    exact ⟨p, (Flow.leave.inj hb).symm, hdone⟩

/-- A call that keeps room. -/
theorem onRecv_hasRoom (h : s.conn.rbytes < RECV_BUFFER_LEN) (hfits : a.Fits s.conn)
    (hkeeps : KeepsRoom s a) : (nwcConnectionOnRecv s a).HasRoom := by
  rcases onRecv_cases s a with ⟨errno, -, ⟨-, heq⟩ | ⟨-, rc, heq⟩⟩ | ⟨-, heq⟩ |
    ⟨data, hfin, -, -, heq⟩
  · rw [heq]
    exact h
  · rw [heq]
    trivial
  · rw [heq]
    trivial
  · obtain ⟨hfills, hno⟩ := hkeeps data hfin
    have hreq : data.length ≤ s.conn.recvRequest := by
      unfold Arrival.Fits at hfits
      rw [hfin] at hfits
      exact hfits
    have hlen : (s.conn.leftover ++ data).length ≤ RECV_BUFFER_LEN := by
      rw [List.length_append, NwcConnection.leftover_length]
      unfold NwcConnection.recvRequest at hreq
      omega
    have hrest := rest_lt hlen hfills
    rw [heq]
    rcases hp : passes (parsePass a.recvTs) a.env (parseEntry s data) with p | r
    · trivial
    · have hleaves : LeavesWith (parsePass a.recvTs) a.envAt (parseEntry s data) r := by
        refine ⟨a.env.length, ?_⟩
        unfold Arrival.envAt
        rw [firstInputs_getD]
        exact hp
      rcases loop_leaves hreq rfl hno hleaves with ⟨p, rfl, hdone⟩ | ⟨t, rfl⟩
      · obtain ⟨c, hfinish, -, -, hleft⟩ := hdone.inside.finish
        rw [afterLoop, hfinish]
        show c.rbytes < RECV_BUFFER_LEN
        rw [← c.leftover_length, hleft, hdone.todo_eq]
        exact hrest
      · trivial

/-- The send callback does not touch the receive buffer. -/
theorem onSend_hasRoom (h : s.conn.rbytes < RECV_BUFFER_LEN) (env : List SendEnv) :
    (nwcConnectionOnSend s env).HasRoom := by
  obtain ⟨t, ht, ⟨rc, heq⟩ | ⟨rc, heq⟩ | heq⟩ := onSend_rule
    (P := fun t => t.conn.rbytes < RECV_BUFFER_LEN)
    (fun t env _ ht => by
      rw [tickSent, nwcIoSend_session]
      exact ht)
    (fun _ ht => ht) s env h
  · rw [heq]
    exact ht
  · rw [heq]
    trivial
  · rw [heq]
    trivial

theorem Outcome.HasRoom.step {o o' : Outcome} {ev : ConnEvent} (h : o.HasRoom)
    (hkept : RoomKept o ev) (hstep : connStep o ev = some o') : o'.HasRoom := by
  obtain ⟨rc, s, rfl⟩ := connStep_from hstep
  cases ev with
  | recv a =>
    simp only [connStep] at hstep
    split at hstep
    · next hfits =>
      rw [← Option.some.inj hstep]
      exact onRecv_hasRoom h hfits hkept
    · cases hstep
  | tick env =>
    rw [← Option.some.inj hstep]
    exact onSend_hasRoom h env
  | stat now =>
    obtain ⟨-, rfl⟩ := connStep_stat hstep
    exact h
  | writable soError env =>
    simp only [connStep] at hstep
    split at hstep
    · rw [← Option.some.inj hstep]
      exact onSend_hasRoom (s := { s with io := (nwcTcpHandleOutput s.io soError).1 }) h env
    · rw [← Option.some.inj hstep]
      exact h

/--
**A connection is closed for a reason, as long as its receive buffer does not fill.**

In every run of a new connection in which no package is longer than the buffer that it fills, every
callback leaves room for the next `recv`, and `nwc_connection_on_recv` closes the connection only
when the transport has reported the end of the stream or an error.
-/
theorem closedForReason_of_room (mode : Mode) (bandwidth : Int) (recvBuff : RecvBuffer)
    (stale : UInt32) (io : NwcTcpHandler) {events : List ConnEvent}
    (hkept : Along connStep
      (.returned 0 (.opened (nwcConnectionInit mode bandwidth recvBuff stale) io)) events
      RoomKept) :
    (∀ o, Visits connStep
        (.returned 0 (.opened (nwcConnectionInit mode bandwidth recvBuff stale) io)) events o →
      o.HasRoom) ∧
    Along connStep
      (.returned 0 (.opened (nwcConnectionInit mode bandwidth recvBuff stale) io)) events
      ClosedForReason := by
  have hroom : ∀ o, Visits connStep
      (.returned 0 (.opened (nwcConnectionInit mode bandwidth recvBuff stale) io)) events o →
      o.HasRoom := by
    intro o ho
    refine visits_invariant (P := Outcome.HasRoom) (fun o ev o' h hk hs => h.step hk hs) ?_ hkept ho
    show 0 < RECV_BUFFER_LEN
    decide
  refine ⟨hroom, fun ds ev o hds ho => ?_⟩
  have h := hroom o ⟨ds, (List.prefix_append ds [ev]).trans hds, ho⟩
  cases o with
  | returned rc s =>
    cases ev with
    | recv a => exact fun rc t hclosed => onRecv_forReason h hclosed
    | tick env => trivial
    | stat now => trivial
    | writable soError env => trivial
  | closed rc s => trivial
  | inLoop s => trivial
  | wild s => trivial

theorem roomKept_sample {o : Outcome} {data held : List UInt8}
    (hheld : o.session.conn.leftover ++ data = held) (hfills : ¬FillsBuffer held)
    (hno : ¬Overflows (cut qosFormat held).2) : RoomKept o (.recv (Arrival.sample data)) := by
  cases o with
  | returned rc s =>
    intro data' hfin
    cases hfin
    have hheld' : s.conn.leftover ++ data = held := hheld
    rw [hheld']
    exact ⟨hfills, fun ho => absurd ho hno⟩
  | closed rc s => trivial
  | inLoop s => trivial
  | wild s => trivial

/-- What is held is too short for a header. -/
theorem roomKept_short {o : Outcome} {data held : List UInt8}
    (hheld : o.session.conn.leftover ++ data = held) (hlen : held.length < qosHdrLen) :
    RoomKept o (.recv (Arrival.sample data)) := by
  unfold qosHdrLen at hlen
  have hnot : ¬qosFormat.Complete held := fun hc => absurd hc.1 (Nat.not_le.mpr hlen)
  refine roomKept_sample hheld (fun hfills => ?_) ?_
  · have hfull : held.length = 4096 := hfills.1
    omega
  · rw [cut_incomplete hnot]
    exact fun ho => absurd ho.1 (Nat.not_le.mpr hlen)

def Outcome.isClosed : Outcome → Bool
  | .closed _ _ => true
  | _ => false

theorem Outcome.isClosed_iff (o : Outcome) : o.isClosed = true ↔ ∃ rc s, o = .closed rc s := by
  cases o with
  | closed rc s => exact ⟨fun _ => ⟨rc, s, rfl⟩, fun _ => rfl⟩
  | returned rc s => simp [Outcome.isClosed]
  | inLoop s => simp [Outcome.isClosed]
  | wild s => simp [Outcome.isClosed]

/-- An empty package in two parts with the statistics in between, and the end of the stream. -/
def cutPackage : List ConnEvent :=
  [.recv (Arrival.sample (List.replicate 10 0)), .stat 1,
    .recv (Arrival.sample (List.replicate 6 0)), .recv (Arrival.sample [])]

/-- The connection is closed, and that for a reason. -/
theorem cutPackage_closedForReason : ∃ rc s,
    replay connStep (.returned 0 (Session.sample .client)) cutPackage = some (.closed rc s) ∧
      (∀ o, Visits connStep (.returned 0 (Session.sample .client)) cutPackage o → o.HasRoom) ∧
      Along connStep (.returned 0 (Session.sample .client)) cutPackage ClosedForReason := by
  have hclosed : (replay connStep (.returned 0 (Session.sample .client)) cutPackage).map
      Outcome.isClosed = some true := by decide +kernel
  have hheld : ((replay connStep (.returned 0 (Session.sample .client)) (cutPackage.take 2)).map
        fun o => o.session.conn.leftover) = some (List.replicate 10 0) ∧
      ((replay connStep (.returned 0 (Session.sample .client)) (cutPackage.take 3)).map
        fun o => o.session.conn.leftover) = some [] := by decide +kernel
  obtain ⟨o, ho, hclosed⟩ := Option.map_eq_some_iff.mp hclosed
  obtain ⟨rc, s, rfl⟩ := o.isClosed_iff.mp hclosed
  refine ⟨rc, s, ho, closedForReason_of_room .client 0 RecvBuffer.zero 0
    { nwcTcpHandlerInit true with state := .established } ?_⟩
  obtain ⟨t, ht, hrest⟩ := replay_cons.mp ho
  obtain ⟨u, hu, hrest⟩ := replay_cons.mp hrest
  obtain ⟨v, hv, hrest⟩ := replay_cons.mp hrest
  obtain ⟨w, hw, -⟩ := replay_cons.mp hrest
  have hsecond : replay connStep (.returned 0 (Session.sample .client)) (cutPackage.take 2)
      = some u := replay_cons.mpr ⟨t, ht, replay_cons.mpr ⟨u, hu, rfl⟩⟩
  have hthird : replay connStep (.returned 0 (Session.sample .client)) (cutPackage.take 3)
      = some v := replay_cons.mpr ⟨t, ht, replay_cons.mpr ⟨u, hu, replay_cons.mpr ⟨v, hv, rfl⟩⟩⟩
  rw [hsecond, hthird, Option.map_some, Option.map_some, Option.some.injEq, Option.some.injEq]
    at hheld
  obtain ⟨hsecond, hthird⟩ := hheld
  refine (along_cons ht).mpr ⟨?_, (along_cons hu).mpr ⟨?_, (along_cons hv).mpr ⟨?_,
    (along_cons hw).mpr ⟨?_, along_nil _ _⟩⟩⟩⟩
  · exact roomKept_short (sample_leftover .client _) (by decide)
  · cases t <;> trivial
  · have hheld : u.session.conn.leftover ++ List.replicate 6 0 = List.replicate 16 0 := by
      rw [hsecond]
      rfl
    refine roomKept_sample hheld (by decide) ?_
    rw [cut_emptyPackage]
    decide
  · have hheld : v.session.conn.leftover ++ [] = [] := by
      rw [hthird]
      rfl
    exact roomKept_short hheld (by decide)

/-! ## A package that is too long -/

/-- A call that fills the buffer leaves no room. -/
theorem onRecv_full {data : List UInt8} {env : PassEnv} (hfin : a.call.final = .ok data)
    (hdata : data ≠ []) (hreq : data.length ≤ s.conn.recvRequest) (henv : a.env = env :: envs)
    (hfills : FillsBuffer (s.conn.leftover ++ data)) (hno : ¬Overflows (s.conn.leftover ++ data)) :
    ∃ t, nwcConnectionOnRecv s a = .returned 0 t ∧ t.conn.mode = s.conn.mode ∧
      t.conn.rbytes = RECV_BUFFER_LEN := by
  rcases onRecv_cases s a with ⟨errno, hfin', -⟩ | ⟨hfin', -⟩ | ⟨data', hfin', -, -, heq⟩
  · rw [hfin] at hfin'
    cases hfin'
  · rw [hfin] at hfin'
    cases hfin'
    exact absurd rfl hdata
  · rw [hfin] at hfin'
    cases hfin'
    obtain ⟨hin, htodo⟩ := parseEntry_inside s hreq
    -- the package in front is neither complete nor short enough to overflow
    have ha : ¬Accepted (parseEntry s data).todo := by
      rw [htodo]
      rintro (hc | ho)
      · have := hc.2
        have := hfills.1
        have := hfills.2
        omega
      · exact hno ho
    obtain ⟨c, hfinish, hmode, -, hleft⟩ := hin.finish
    refine ⟨{ (parseEntry s data).session with conn := c }, ?_, hmode, ?_⟩
    · rw [heq, henv, passes_cons_leave (parsePass_drained hin ha)]
      exact hfinish
    · show c.rbytes = RECV_BUFFER_LEN
      rw [← c.leftover_length, hleft, htodo]
      exact hfills.1

/-- Without room `recv` has nothing to give, and the next call closes the connection. -/
theorem onRecv_noRoom (h : s.conn.rbytes = RECV_BUFFER_LEN) {data : List UInt8}
    (hfits : a.Fits s.conn) (hfin : a.call.final = .ok data) :
    s.conn.recvRequest = 0 ∧ nwcConnectionOnRecv s a = .closed 0 (nwcConnectionClose s) := by
  have hreq : s.conn.recvRequest = 0 := by simp [NwcConnection.recvRequest, h]
  refine ⟨hreq, ?_⟩
  unfold Arrival.Fits at hfits
  rw [hfin, hreq] at hfits
  rcases onRecv_cases s a with ⟨errno, hfin', -⟩ | ⟨-, heq⟩ | ⟨data', hfin', hne, -⟩
  · rw [hfin] at hfin'
    cases hfin'
  · exact heq
  · rw [hfin] at hfin'
    cases hfin'
    exact absurd (List.length_eq_zero_iff.mp (Nat.le_zero.mp hfits)) hne

/-- The first bytes of a package with 4081 bytes of payload: all but the last one. -/
def longPackage : List UInt8 :=
  (List.replicate 12 0 ++ [0xF1, 0x0F, 0, 0]) ++ List.replicate 4080 0

theorem longPackage_length : longPackage.length = RECV_BUFFER_LEN := by
  rw [longPackage, List.length_append, List.length_replicate]
  rfl

theorem longPackage_frameLen : qosFormat.frameLen longPackage = 4097 := by
  rw [longPackage, frameLen_append (by decide)]
  decide

theorem longPackage_fills :
    FillsBuffer ((Session.sample .client).conn.leftover ++ longPackage) := by
  rw [sample_leftover]
  refine ⟨longPackage_length, ?_⟩
  rw [longPackage_frameLen]
  decide

theorem longPackage_not_overflows :
    ¬Overflows ((Session.sample .client).conn.leftover ++ longPackage) := by
  rw [sample_leftover]
  rintro ⟨-, ho⟩
  rw [longPackage_frameLen] at ho
  omega

/-- A client gets them. No room is left, and the next call closes the connection. -/
theorem longPackage_noRoom :
    ∃ t, replay connStep (.returned 0 (Session.sample .client))
        [.recv (Arrival.sample longPackage)] = some (.returned 0 t) ∧
      ¬Outcome.HasRoom (.returned 0 t) ∧
      ¬ClosedForReason (.returned 0 t) (.recv (Arrival.sample [])) := by
  have hfirst : (Arrival.sample longPackage).call.final = .ok longPackage := rfl
  have hnext : (Arrival.sample []).call.final = .ok [] := rfl
  have hne : longPackage ≠ [] := by
    rw [← List.length_pos_iff, longPackage_length]
    decide
  have hfits : (Arrival.sample longPackage).Fits (Session.sample .client).conn :=
    longPackage_length.le
  obtain ⟨t, hcall, hmode, hrbytes⟩ := onRecv_full hfirst hne hfits (List.replicate_succ (n := 256))
    longPackage_fills longPackage_not_overflows
  obtain ⟨hreq, hclosed⟩ := onRecv_noRoom hrbytes (Nat.zero_le _) hnext
  refine ⟨t, ?_, ?_, ?_⟩
  · refine replay_cons.mpr ⟨.returned 0 t, ?_, rfl⟩
    rw [connStep, if_pos hfits, hcall]
  · show ¬t.conn.rbytes < RECV_BUFFER_LEN
    omega
  · intro hreason
    rcases hreason 0 _ hclosed with ⟨hpos, -⟩ | ⟨hserver, -⟩
    · omega
    · rw [hmode] at hserver
      cases hserver

end Nwchecker
