import Nwchecker.Connection.ParseBounds
import Nwchecker.Connection.Send

/-!
# The receive path along a stream of packages

What a peer sends is a concatenation of packages that each fit in the receive buffer
(`PackageStream`). This file follows the bytes of such a stream through `nwc_connection_on_recv`,
over any number of calls and wherever the transport cuts.

`InOrder` is the invariant: the packages processed so far and the bytes not consumed yet are, put
together, the bytes delivered. The rule at the end carries with it whatever else the packages and
the sends keep (`Keeps`), so that it serves the client and the server.
-/

namespace Nwchecker

open Doubles Framing Loop Machine Words

/-- A stream of packages none of which is larger than the receive buffer. -/
def PackageStream (fs : List (List UInt8)) : Prop :=
  ∀ f ∈ fs, qosFormat.IsFrame f ∧ f.length ≤ RECV_BUFFER_LEN

/-- The packages handed on are frames at the front of what was delivered, and `r` is the rest. -/
structure InOrder (s : Session) (r : List UInt8) : Prop where
  eq : s.sock.delivered = s.handed.flatten ++ r
  frames : ∀ f ∈ s.handed, qosFormat.IsFrame f

variable {stream : List (List UInt8)} {s : Session} {r : List UInt8}

/-- The packages handed on are the first ones of the stream. -/
theorem InOrder.split (h : InOrder s r) (hst : PackageStream stream)
    (hp : s.sock.delivered <+: stream.flatten) :
    ∃ gs, stream = s.handed ++ gs ∧ r <+: gs.flatten := by
  rw [h.eq] at hp
  exact frames_of_stream h.frames (fun f hf => (hst f hf).1) hp

theorem InOrder.handed_isInitial (h : InOrder s r) (hst : PackageStream stream)
    (hp : s.sock.delivered <+: stream.flatten) : s.handed <+: stream := by
  obtain ⟨gs, rfl, -⟩ := h.split hst hp
  exact List.prefix_append _ _

/-- No header of the stream claims more than the buffer holds. -/
theorem InOrder.not_overflows (h : InOrder s r) (hst : PackageStream stream)
    (hp : s.sock.delivered <+: stream.flatten) : ¬Overflows r := by
  rintro ⟨hlen, hlong⟩
  obtain ⟨gs, rfl, hr⟩ := h.split hst hp
  have hgs : PackageStream gs := fun f hf => hst f (List.mem_append_right _ hf)
  obtain ⟨f, hf, hfl⟩ := frameLen_of_stream (fun f hf => (hgs f hf).1) hr hlen
  have hle := (hgs f hf).2
  unfold RECV_BUFFER_LEN at hle
  omega

/-- Less than a buffer full is left when no package is complete. -/
theorem InOrder.rest_lt (h : InOrder s r) (hst : PackageStream stream)
    (hp : s.sock.delivered <+: stream.flatten) (hc : ¬qosFormat.Complete r) :
    r.length < RECV_BUFFER_LEN := by
  obtain ⟨gs, rfl, hr⟩ := h.split hst hp
  exact rest_length_lt (by decide) (fun f hf => hst f (List.mem_append_right _ hf)) hr hc

/-! ## The loop -/

/--
`R` relates the packages handed on and the sends made. It is kept when the client processes a
package, when the server answers one and when the client sends one.
-/
structure Keeps (R : Mode → List (List UInt8) → List SendRecord → Prop) : Prop where
  processed : ∀ hs ss f, R .client hs ss → R .client (hs ++ [f]) ss
  answered : ∀ hs ss f recvTs env, qosFormat.IsFrame f → R .server hs ss →
    R .server (hs ++ [f])
      (ss ++ [{ buffer := (ackPackage recvTs (NwcQosHdr.ofBytes f) env).bytes
                rc := nwcTcpHandlerSendRc env.call }])
  sent : ∀ hs ss send, R .client hs ss → R .client hs (ss ++ [send])

/-- `R` of a session. -/
def Session.Satisfies (R : Mode → List (List UInt8) → List SendRecord → Prop) (s : Session) :
    Prop :=
  R s.conn.mode s.handed s.sock.sends

variable {R : Mode → List (List UInt8) → List SendRecord → Prop}

/-- The loop is on the stream: `D` was delivered, `n` bytes of it were held at the first pass. -/
structure OnTrack (R : Mode → List (List UInt8) → List SendRecord → Prop) (D : List UInt8)
    (n : Nat) (p : ParseState) : Prop where
  inside : p.Inside n
  delivered : p.session.sock.delivered = D
  inOrder : InOrder p.session p.todo
  kept : p.session.Satisfies R

/-- How a loop that was on the stream is left. -/
def ExitOnTrack (R : Mode → List (List UInt8) → List SendRecord → Prop) (D : List UInt8)
    (n : Nat) : ParseExit → Prop
  | .drained p => OnTrack R D n p ∧ ¬qosFormat.Complete p.todo
  | .closed s =>
    s.conn.mode = .server ∧ s.sock.delivered = D ∧ (∃ r, InOrder s r) ∧ s.Satisfies R
  | .wild _ => False

variable {D : List UInt8} {n : Nat} {p : ParseState} {recvTs : UInt32} {env : PassEnv}

theorem OnTrack.complete_of_accepted (h : OnTrack R D n p) (hst : PackageStream stream)
    (hp : D <+: stream.flatten) (ha : Accepted p.todo) : qosFormat.Complete p.todo := by
  rcases ha with hc | ho
  · exact hc
  · -- the length fields of the stream are small, and what follows it is a piece of it
    rw [← h.delivered] at hp
    exact absurd ho (h.inOrder.not_overflows hst hp)

/-- The package in front joins the packages handed on. -/
theorem OnTrack.hand_on (h : OnTrack R D n p) (hc : qosFormat.Complete p.todo) :
    p.session.sock.delivered
        = (p.session.handed ++ [p.pkgBytes (NwcQosHdr.ofBytes p.todo)]).flatten
          ++ p.todo.drop (qosFormat.frameLen p.todo) ∧
      (∀ f ∈ p.session.handed ++ [p.pkgBytes (NwcQosHdr.ofBytes p.todo)], qosFormat.IsFrame f) ∧
      NwcQosHdr.ofBytes (p.pkgBytes (NwcQosHdr.ofBytes p.todo)) = NwcQosHdr.ofBytes p.todo := by
  rw [pkgBytes_eq h.inside hc]
  refine ⟨?_, ?_, ?_⟩
  · simp only [List.flatten_append, List.flatten_cons, List.flatten_nil, List.append_nil,
      List.append_assoc, List.take_append_drop]
    exact h.inOrder.eq
  · intro f hf
    rcases List.mem_append.mp hf with hf | hf
    · exact h.inOrder.frames f hf
    · rw [List.mem_singleton.mp hf]
      exact hc.isFrame_take
  · rw [NwcQosHdr.ofBytes_take]
    rw [qosFormat_frameLen]
    omega

theorem OnTrack.clientDone (h : OnTrack R D n p) (hR : Keeps R) (hc : qosFormat.Complete p.todo)
    (hm : p.session.conn.mode = .client) : OnTrack R D n (clientDone recvTs p) := by
  obtain ⟨heq, hframes, -⟩ := h.hand_on hc
  obtain ⟨hin, htodo⟩ := todo_advance h.inside hc (s := (Nwchecker.clientDone recvTs p).session) rfl
  refine ⟨hin, h.delivered, ⟨?_, hframes⟩, ?_⟩
  · show p.session.sock.delivered = _ ++ ParseState.todo _
    rw [heq]
    exact congrArg _ htodo.symm
  · have hk := h.kept
    unfold Session.Satisfies at hk ⊢
    rw [hm] at hk
    show R p.session.conn.mode _ _
    rw [hm]
    exact hR.processed _ _ _ hk

/-- The session after the ack, whatever came of sending it. -/
theorem OnTrack.serverSent (h : OnTrack R D n p) (recvTs : UInt32) (env : PassEnv)
    (hR : Keeps R) (hc : qosFormat.Complete p.todo)
    (hm : p.session.conn.mode = .server) :
    (serverSent recvTs env p).sock.delivered = D ∧
      InOrder (serverSent recvTs env p) (p.todo.drop (qosFormat.frameLen p.todo)) ∧
      (serverSent recvTs env p).Satisfies R := by
  obtain ⟨heq, hframes, hhdr⟩ := h.hand_on hc
  have hk := h.kept
  unfold Session.Satisfies at hk
  rw [hm] at hk
  rw [Nwchecker.serverSent, nwcIoSend_session]
  refine ⟨h.delivered, ⟨heq, hframes⟩, ?_⟩
  unfold Session.Satisfies
  have hans := hR.answered _ _ _ recvTs env (hframes _ (List.mem_append_right _
    List.mem_cons_self)) hk
  rw [hhdr] at hans
  show R p.session.conn.mode _ _
  rw [hm]
  exact hans

theorem OnTrack.serverDone (h : OnTrack R D n p) (hR : Keeps R) (hc : qosFormat.Complete p.todo)
    (hm : p.session.conn.mode = .server) : OnTrack R D n (serverDone recvTs env p) := by
  obtain ⟨hdel, hord, hkept⟩ := h.serverSent recvTs env hR hc hm
  obtain ⟨hin, htodo⟩ := todo_advance h.inside hc (s := Nwchecker.serverSent recvTs env p)
    (by rw [serverSent_conn])
  refine ⟨hin, hdel, ?_, hkept⟩
  show InOrder (Nwchecker.serverSent recvTs env p) (ParseState.todo _)
  rw [Nwchecker.serverDone, htodo]
  exact hord

/-- One pass keeps the loop on the stream, and a client gets shorter of one package. -/
theorem OnTrack.pass (h : OnTrack R D n p) (recvTs : UInt32) (env : PassEnv)
    (hR : Keeps R) (hst : PackageStream stream) (hp : D <+: stream.flatten) :
    (∀ p', parsePass recvTs env p = .again p' →
      OnTrack R D n p' ∧
        (p.session.conn.mode = .client →
          p'.session.conn.mode = .client ∧ p'.todo.length + qosHdrLen ≤ p.todo.length)) ∧
    (∀ r, parsePass recvTs env p = .leave r → ExitOnTrack R D n r) := by
  by_cases ha : Accepted p.todo
  · have hc := h.complete_of_accepted hst hp ha
    cases hm : p.session.conn.mode with
    | client =>
      rw [parsePass_client h.inside hm ha]
      refine Flow.at_again ?_
      refine ⟨h.clientDone hR hc hm, fun _ => ⟨hm, ?_⟩⟩
      have htodo := (todo_advance h.inside hc
        (s := (Nwchecker.clientDone recvTs p).session) rfl).2
      have hlen : (Nwchecker.clientDone recvTs p).todo.length
          = p.todo.length - qosFormat.frameLen p.todo := by
        rw [← List.length_drop]
        exact congrArg List.length htodo
      have htot := hc.2
      rw [qosFormat_frameLen] at htot hlen
      omega
    | server =>
      cases hs : p.session.io.canSend with
      | true =>
        rw [parsePass_server recvTs env h.inside hm hs ha]
        split
        · -- the send failed after the package was handed on
          refine Flow.at_leave ?_
          obtain ⟨hdel, hord, hkept⟩ := h.serverSent recvTs env hR hc hm
          refine ⟨?_, hdel, ⟨_, hord.eq, hord.frames⟩, hkept⟩
          show (Nwchecker.serverSent recvTs env p).conn.mode = .server
          rw [serverSent_conn, hm]
        · exact Flow.at_again ⟨h.serverDone hR hc hm, fun hm' => by cases hm'⟩
      | false =>
        -- `continue` leads back to the same head
        rw [parsePass_stuck h.inside hm hs ha]
        exact Flow.at_again ⟨h, fun hm' => by cases hm'⟩
  · rw [parsePass_drained h.inside ha]
    exact Flow.at_leave ⟨h, fun hc => ha (Or.inl hc)⟩

/-! ## The callback -/

/-- What holds of an outcome on the stream. -/
def OnStream (R : Mode → List (List UInt8) → List SendRecord → Prop) : Outcome → Prop
  | .returned _ s =>
    InOrder s s.conn.leftover ∧ ¬qosFormat.Complete s.conn.leftover ∧ s.Satisfies R
  | .closed _ s => (∃ r, InOrder s r) ∧ s.Satisfies R
  | .inLoop s => (∃ r, InOrder s r) ∧ s.Satisfies R
  | .wild _ => False

theorem onTrack_entry (h : InOrder s s.conn.leftover) (hk : s.Satisfies R) {data : List UInt8}
    (hreq : data.length ≤ s.conn.recvRequest) :
    OnTrack R (s.sock.delivered ++ data) (s.conn.rbytes + data.length) (parseEntry s data) := by
  obtain ⟨hin, htodo⟩ := parseEntry_inside s hreq
  refine ⟨hin, Socket.delivered_snoc _ _, ⟨?_, h.frames⟩, hk⟩
  rw [htodo]
  show Socket.delivered { s.sock with recvs := s.sock.recvs ++ [data] } = _
  rw [Socket.delivered_snoc, h.eq, List.append_assoc]
  rfl

/-- The `memmove` keeps what the loop left. -/
theorem OnTrack.finish (h : OnTrack R D n p) (hc : ¬qosFormat.Complete p.todo) :
    ∃ t, recvFinish p = .returned 0 t ∧ OnStream R (.returned 0 t) := by
  obtain ⟨c, hfinish, hmode, -, hleft⟩ := h.inside.finish
  refine ⟨_, hfinish, ?_, ?_, ?_⟩
  · show InOrder _ c.leftover
    rw [hleft]
    exact ⟨h.inOrder.eq, h.inOrder.frames⟩
  · show ¬qosFormat.Complete c.leftover
    rw [hleft]
    exact hc
  · show R c.mode _ _
    rw [hmode]
    exact h.kept

/-- The loop of one call, whatever it read. -/
theorem passes_onTrack (recvTs : UInt32) (hR : Keeps R) (hst : PackageStream stream)
    (hp : D <+: stream.flatten) (h : OnTrack R D n p) (envs : List PassEnv) :
    (∀ p', passes (parsePass recvTs) envs p = .again p' → OnTrack R D n p') ∧
      (∀ r, passes (parsePass recvTs) envs p = .leave r → ExitOnTrack R D n r) :=
  passes_rule (I := fun _ => True)
    (fun env _ q' _ hq hb => ((hq.pass recvTs env hR hst hp).1 q' hb).1)
    (fun env _ r _ hq hb => (hq.pass recvTs env hR hst hp).2 r hb)
    envs (fun _ _ => trivial) h

/-- The session a loop is left with. -/
def ParseExit.session : ParseExit → Session
  | .drained p => p.session
  | .closed s => s
  | .wild p => p.session

/-- What a pass can do: it breaks, a server answers or does not, or a client goes on. -/
theorem parsePass_cases (recvTs : UInt32) (env : PassEnv) (p : ParseState) :
    (∃ r, parsePass recvTs env p = .leave r ∧ r.session = p.session ∧ ∀ t, r ≠ .closed t) ∨
      (p.session.conn.mode = .server ∧ parsePass recvTs env p = .again p) ∨
      (p.session.conn.mode = .server ∧ ∃ pkg t,
        t = (nwcIoSend { p.session with handed := p.session.handed ++ [p.pkgBytes pkg] }
          (ackPackage recvTs pkg env).bytes env.call).2 ∧
        ((HardError env.call ∧
            parsePass recvTs env p = .leave (.closed (nwcConnectionClose t))) ∨
          parsePass recvTs env p = .again (ParseState.advance { p with session := t } pkg))) ∨
      (p.session.conn.mode = .client ∧ ∃ pkg t,
        parsePass recvTs env p = .again (ParseState.advance { p with session := t } pkg) ∧
        t.conn = { p.session.conn with
          qos := nwcQosProcessPackage roundDouble p.session.conn.qos pkg recvTs } ∧
        t.sock = p.session.sock) := by
  generalize hpass : parsePass recvTs env p = o
  unfold parsePass at hpass
  split at hpass
  · exact Or.inl ⟨.drained p, hpass.symm, rfl, fun t ht => by cases ht⟩
  · split at hpass
    · exact Or.inl ⟨.wild p, hpass.symm, rfl, fun t ht => by cases ht⟩
    · next pkg _ =>
      split at hpass
      · exact Or.inl ⟨.drained p, hpass.symm, rfl, fun t ht => by cases ht⟩
      · split at hpass
        · next hm =>
          split at hpass
          · exact Or.inr (Or.inl ⟨hm, hpass.symm⟩)
          · refine Or.inr (Or.inr (Or.inl ⟨hm, pkg, _, rfl, ?_⟩))
            dsimp only at hpass
            split at hpass
            · next hhard =>
              rw [nwcIoSend_rc] at hhard
              exact Or.inl ⟨hhard, hpass.symm⟩
            · exact Or.inr hpass.symm
        · next hm =>
          dsimp only at hpass
          exact Or.inr (Or.inr (Or.inr ⟨hm, pkg, _, hpass.symm, rfl, rfl⟩))

/-- What the receive path leaves alone: the mode, what was read, and all of a client's socket. -/
structure Untouched (s t : Session) : Prop where
  mode : t.conn.mode = s.conn.mode
  recvs : t.sock.recvs = s.sock.recvs
  client : s.conn.mode = .client → t.sock = s.sock

theorem Untouched.refl (s : Session) : Untouched s s := ⟨rfl, rfl, fun _ => rfl⟩

theorem Untouched.trans {s t u : Session} (h : Untouched s t) (h' : Untouched t u) :
    Untouched s u where
  mode := h'.mode.trans h.mode
  recvs := h'.recvs.trans h.recvs
  client := fun hm => (h'.client (h.mode.trans hm)).trans (h.client hm)

theorem parsePass_untouched (recvTs : UInt32) (env : PassEnv) (p : ParseState) :
    (∀ p', parsePass recvTs env p = .again p' → Untouched p.session p'.session) ∧
      (∀ r, parsePass recvTs env p = .leave r → Untouched p.session r.session) := by
  rcases parsePass_cases recvTs env p with ⟨r, heq, hr, -⟩ | ⟨-, heq⟩ |
    ⟨hm, pkg, t, rfl, ⟨-, heq⟩ | heq⟩ | ⟨-, pkg, t, heq, hconn, hsock⟩
  · rw [heq]
    refine Flow.at_leave ?_
    rw [hr]
    exact Untouched.refl _
  · rw [heq]
    exact Flow.at_again (Untouched.refl _)
  · rw [heq, nwcIoSend_session]
    have hserver : p.session.conn.mode ≠ .client := by simp [hm]
    exact Flow.at_leave ⟨rfl, rfl, fun hc => absurd hc hserver⟩
  · rw [heq, nwcIoSend_session]
    have hserver : p.session.conn.mode ≠ .client := by simp [hm]
    exact Flow.at_again ⟨rfl, rfl, fun hc => absurd hc hserver⟩
  · have hmode : t.conn.mode = p.session.conn.mode := by rw [hconn]
    rw [heq]
    exact Flow.at_again ⟨hmode, congrArg Socket.recvs hsock, fun _ => hsock⟩

theorem recvFinish_untouched (p : ParseState) : Untouched p.session (recvFinish p).session := by
  obtain ⟨c, hsession, hmode, -⟩ := recvFinish_session p
  rw [hsession]
  exact ⟨hmode, rfl, fun _ => rfl⟩

/-- What every pass keeps, the loop keeps with what follows it. -/
theorem afterLoop_relates {T : Session → Session → Prop} {recvTs : UInt32} (hrefl : ∀ s, T s s)
    (htrans : ∀ s t u, T s t → T t u → T s u)
    (hpass : ∀ env p, (∀ p', parsePass recvTs env p = .again p' → T p.session p'.session) ∧
      (∀ r, parsePass recvTs env p = .leave r → T p.session r.session))
    (hfinish : ∀ p, T p.session (recvFinish p).session) (envs : List PassEnv) (p : ParseState) :
    T p.session (afterLoop (passes (parsePass recvTs) envs p)).session := by
  obtain ⟨hagain, hleave⟩ := passes_rule (I := fun _ => True)
    (P := fun q => T p.session q.session) (Q := fun r => T p.session r.session)
    (fun env q q' _ hq hb => htrans _ _ _ hq ((hpass env q).1 q' hb))
    (fun env q r _ hq hb => htrans _ _ _ hq ((hpass env q).2 r hb))
    envs (s := p) (fun _ _ => trivial) (hrefl _)
  rcases hp : passes (parsePass recvTs) envs p with q | q | t | q
  · exact hagain q hp
  · exact htrans _ _ _ (hleave _ hp) (hfinish q)
  · exact hleave _ hp
  · exact hleave _ hp

theorem afterLoop_untouched (recvTs : UInt32) (envs : List PassEnv) (p : ParseState) :
    Untouched p.session (afterLoop (passes (parsePass recvTs) envs p)).session :=
  afterLoop_relates Untouched.refl (fun _ _ _ h h' => h.trans h') (parsePass_untouched recvTs)
    recvFinish_untouched envs p

/-- What a call does to the delivered bytes, and what it comes to. -/
theorem onRecv_cases (s : Session) (a : Arrival) :
    (∃ errno, a.call.final = .error errno ∧
      ((errno = EAGAIN ∧ nwcConnectionOnRecv s a = .returned 0 s) ∨
        (errno ≠ EAGAIN ∧ ∃ rc, nwcConnectionOnRecv s a = .closed rc (nwcConnectionClose s)))) ∨
    (a.call.final = .ok [] ∧ nwcConnectionOnRecv s a = .closed 0 (nwcConnectionClose s)) ∨
    (∃ data, a.call.final = .ok data ∧ data ≠ [] ∧
      (nwcConnectionOnRecv s a).session.sock.delivered = s.sock.delivered ++ data ∧
      nwcConnectionOnRecv s a
        = afterLoop (passes (parsePass a.recvTs) a.env (parseEntry s data))) := by
  rcases nwcTcpHandlerRecv_final a.call with ⟨data, hfin, hrecv⟩ | ⟨errno, hfin, hneg, hagain⟩
  · right
    by_cases hd : data = []
    · subst hd
      left
      refine ⟨hfin, ?_⟩
      rw [nwcConnectionOnRecv, hrecv]
      rfl
    · right
      have hpos : 0 < data.length := List.length_pos_iff.mpr hd
      have hcall : nwcConnectionOnRecv s a
          = afterLoop (passes (parsePass a.recvTs) a.env (parseEntry s data)) := by
        rw [nwcConnectionOnRecv, hrecv]
        dsimp only
        rw [if_neg (by omega)]
      refine ⟨data, hfin, hd, ?_, hcall⟩
      have hrecvs := (afterLoop_untouched a.recvTs a.env (parseEntry s data)).recvs
      rw [hcall, Socket.delivered, hrecvs]
      exact Socket.delivered_snoc s.sock data
  · left
    refine ⟨errno, hfin, ?_⟩
    rw [nwcConnectionOnRecv, if_pos (by omega)]
    by_cases he : errno = EAGAIN
    · exact Or.inl ⟨he, by rw [if_pos (hagain.mpr he)]⟩
    · exact Or.inr ⟨he, _, by rw [if_neg (fun h => he (hagain.mp h))]⟩

/-- Between two callbacks the connection is on the stream, as far as the peer sends one. -/
def Follows (R : Mode → List (List UInt8) → List SendRecord → Prop) (stream : List (List UInt8))
    (o : Outcome) : Prop :=
  o.session.sock.delivered <+: stream.flatten → OnStream R o

/-- Reading keeps a connection on the stream. -/
theorem onRecv_onStream (hR : Keeps R) (hst : PackageStream stream)
    (h : s.sock.delivered <+: stream.flatten → OnStream R (.returned 0 s)) {a : Arrival}
    (hfits : a.Fits s.conn) : Follows R stream (nwcConnectionOnRecv s a) := by
  unfold Follows
  rcases onRecv_cases s a with ⟨errno, -, ⟨-, heq⟩ | ⟨-, rc, heq⟩⟩ | ⟨-, heq⟩ |
    ⟨data, hfin, -, hdel, heq⟩
  · -- nothing to read
    rw [heq]
    exact h
  · -- an error closes the connection
    rw [heq]
    intro hp
    obtain ⟨hord, -, hk⟩ := h hp
    exact ⟨⟨_, hord.eq, hord.frames⟩, hk⟩
  · -- so does the end of the stream
    rw [heq]
    intro hp
    obtain ⟨hord, -, hk⟩ := h hp
    exact ⟨⟨_, hord.eq, hord.frames⟩, hk⟩
  · -- the bytes are parsed, or some of them are by the time the inputs end
    rw [hdel, heq]
    intro hp
    obtain ⟨hord, -, hk⟩ := h ((List.prefix_append _ data).trans hp)
    have hreq : data.length ≤ s.conn.recvRequest := by
      unfold Arrival.Fits at hfits
      rw [hfin] at hfits
      exact hfits
    have hloop := passes_onTrack a.recvTs hR hst hp (onTrack_entry hord hk hreq) a.env
    rcases hpass : passes (parsePass a.recvTs) a.env (parseEntry s data) with p | p | t | p
    · have ht := hloop.1 p hpass
      exact ⟨⟨_, ht.inOrder⟩, ht.kept⟩
    · obtain ⟨ht, hc⟩ := hloop.2 _ hpass
      obtain ⟨t, hfinish, hon⟩ := ht.finish hc
      show OnStream R (recvFinish p)
      rw [hfinish]
      exact hon
    · obtain ⟨-, -, hord', hk'⟩ := hloop.2 _ hpass
      exact ⟨hord', hk'⟩
    · exact (hloop.2 _ hpass).elim

/-- Sending keeps a connection on the stream. -/
theorem onSend_onStream (hR : Keeps R)
    (h : s.sock.delivered <+: stream.flatten → OnStream R (.returned 0 s)) (envs : List SendEnv) :
    Follows R stream (nwcConnectionOnSend s envs) := by
  unfold Follows
  obtain ⟨t, ht, hways⟩ := onSend_rule
    (P := fun t => t.sock.delivered <+: stream.flatten → OnStream R (.returned 0 t))
    (fun t env hm ht => by
      rw [tickSent, nwcIoSend_session]
      intro hp
      obtain ⟨hord, hc, hk⟩ := ht hp
      refine ⟨⟨hord.eq, hord.frames⟩, hc, ?_⟩
      unfold Session.Satisfies at hk ⊢
      rw [hm] at hk
      show R t.conn.mode _ _
      rw [hm]
      exact hR.sent _ _ _ hk)
    (fun t ht hp => by
      obtain ⟨hord, hc, hk⟩ := ht hp
      exact ⟨⟨hord.eq, hord.frames⟩, hc, hk⟩) s envs h
  rcases hways with ⟨rc, heq⟩ | ⟨rc, heq⟩ | heq
  · rw [heq]
    exact ht
  · rw [heq]
    intro hp
    obtain ⟨hord, -, hk⟩ := ht hp
    exact ⟨⟨_, hord⟩, hk⟩
  · rw [heq]
    intro hp
    obtain ⟨hord, -, hk⟩ := ht hp
    exact ⟨⟨_, hord⟩, hk⟩

/--
**A connection stays on the stream**, from any state on it, whatever the events are, as long as
the peer sends a stream of packages.
-/
theorem run_onStream (hR : Keeps R) (hst : PackageStream stream) {o o' : Outcome}
    {events : List ConnEvent} (h : Follows R stream o)
    (hrun : replay connStep o events = some o') : Follows R stream o' := by
  refine replay_invariant (I := fun _ => True) (fun o ev o' _ hQ hstep => ?_) (fun _ _ => trivial)
    h hrun
  refine connStep_rule (P := fun s => Follows R stream (.returned 0 s)) (Q := Follows R stream)
    (fun rc s => Iff.rfl) (fun s io hP hp => ?_) (fun s a hP hfits => ?_) (fun s env hP => ?_)
    (fun s now _ hP hp => ?_) o ev o' hQ hstep
  · obtain ⟨hord, hc, hk⟩ := hP hp
    exact ⟨⟨hord.eq, hord.frames⟩, hc, hk⟩
  · exact onRecv_onStream hR hst hP hfits
  · exact onSend_onStream hR hP env
  · obtain ⟨hord, hc, hk⟩ := hP hp
    exact ⟨⟨hord.eq, hord.frames⟩, hc, hk⟩

/-- A new connection is on every stream. -/
theorem opened_follows (conn : NwcConnection) (io : NwcTcpHandler) (h0 : conn.rbytes = 0)
    (hk : R conn.mode [] []) : Follows R stream (.returned 0 (Session.opened conn io)) := by
  intro _
  have hleft : conn.leftover = [] := by
    rw [← List.length_eq_zero_iff, NwcConnection.leftover_length, h0]
  refine ⟨⟨?_, fun f hf => absurd hf List.not_mem_nil⟩, ?_, hk⟩
  · show [] = [] ++ conn.leftover
    rw [hleft]
    rfl
  · show ¬qosFormat.Complete conn.leftover
    rw [hleft]
    decide

end Nwchecker
