import Nwchecker.Connection.Stream
import Nwchecker.Process.World

/-!
# What a close does to the process

`nwc_connection_close` releases the handler and then asks it for its looper, and it leaves the
released connection in `conn_hdr`. So everything is in order exactly as long as no connection is
closed, that is as long as no `recv` and no `send` fails.
-/

namespace Nwchecker

open Words Loop Lifetime

/-- The transport took something, or may do so later. -/
def SendRecord.Soft (r : SendRecord) : Prop := 0 < r.rc ∨ r.rc = -EAGAIN

instance (r : SendRecord) : Decidable r.Soft := inferInstanceAs (Decidable (_ ∨ _))

/-- What no callback undoes: sends that have been made, and the operations of the handler. -/
structure Grows (s t : Session) : Prop where
  sends : s.sock.sends <+: t.sock.sends
  ioop : t.io.ioop = s.io.ioop

theorem Grows.refl (s : Session) : Grows s s := ⟨List.prefix_rfl, rfl⟩

theorem Grows.trans {s t u : Session} (h : Grows s t) (h' : Grows t u) : Grows s u :=
  ⟨h.sends.trans h'.sends, h'.ioop.trans h.ioop⟩

/-- No send in between has failed for good. -/
structure GrowsSoftly (s t : Session) : Prop extends Grows s t where
  soft : ∀ r ∈ t.sock.sends, r ∈ s.sock.sends ∨ r.Soft

theorem GrowsSoftly.refl (s : Session) : GrowsSoftly s s :=
  ⟨Grows.refl s, fun _ hr => Or.inl hr⟩

theorem GrowsSoftly.trans {s t u : Session} (h : GrowsSoftly s t) (h' : GrowsSoftly t u) :
    GrowsSoftly s u where
  toGrows := h.toGrows.trans h'.toGrows
  soft := by
    intro r hr
    rcases h'.soft r hr with hr | hr
    · exact h.soft r hr
    · exact Or.inr hr

/-- The handler is released and then read, and the connection is released too. -/
structure Doomed (i : Nat) (l : Trace) : Prop where
  used : List.Sublist [.release (.io i), .read (.io i) .looper] l
  conn : .release (.conn i) ∈ l

theorem Doomed.append_left {i : Nat} {l : Trace} (h : Doomed i l) (l' : Trace) :
    Doomed i (l' ++ l) :=
  ⟨h.used.trans (List.sublist_append_right _ _), List.mem_append_right _ h.conn⟩

theorem Doomed.append_right {i : Nat} {l : Trace} (h : Doomed i l) (l' : Trace) :
    Doomed i (l ++ l') :=
  ⟨h.used.trans (List.sublist_append_left _ _), List.mem_append_left _ h.conn⟩

theorem Doomed.cons {i : Nat} {l : Trace} (h : Doomed i l) (a : Access Obj Field) :
    Doomed i (a :: l) := h.append_left [a]

/-! ## Traces -/

/-- **Every `nwc_connection_close` uses the handler it has released.** -/
theorem closeTrace_doomed (i : Nat) (state : NwcTcpState) : Doomed i (closeTrace i state) where
  used := by
    have hfirst : List.Sublist [Access.release (.io i)]
        (Access.read (.conn i) Field.handle :: ioCloseTrace (.io i) state) := by
      simp [ioCloseTrace]
    exact hfirst.append (by simp)
  conn := by simp [closeTrace]

@[simp] theorem recvAttempts_noRelease (i : Nat) : ∀ call, NoRelease (recvAttempts i call)
  | .interrupted retry => by simpa [recvAttempts] using recvAttempts_noRelease i retry
  | .failed errno => by
    rw [recvAttempts]
    split <;> simp
  | .done [] => by simp [recvAttempts]
  | .done (_ :: _) => by simp [recvAttempts]

@[simp] theorem sendAttempts_noRelease (i : Nat) : ∀ call, NoRelease (sendAttempts i call)
  | .interrupted retry => by simpa [sendAttempts] using sendAttempts_noRelease i retry
  | .failed errno => by
    rw [sendAttempts]
    split <;> simp
  | .done _ => by simp [sendAttempts]

@[simp] theorem ioSendTrace_noRelease (i : Nat) (call : SysCall Nat) :
    NoRelease (ioSendTrace i call) := by
  simp [ioSendTrace]

@[simp] theorem processTrace_noRelease (i : Nat) (qos : NwcQosProtocol) (pkg : NwcQosHdr) :
    NoRelease (processTrace i qos pkg) := by
  unfold processTrace
  split
  · simp
  · split <;> simp

@[simp] theorem leftoverTrace_noRelease (i : Nat) (rbytes : Int) :
    NoRelease (leftoverTrace i rbytes) := by
  unfold leftoverTrace
  split <;> simp

@[simp] theorem callTrace_noRelease (i : Nat) : NoRelease (callTrace i) := by simp [callTrace]

@[simp] theorem handleInputTrace_noRelease (i : Nat) : NoRelease (handleInputTrace i) := by
  simp [handleInputTrace]

@[simp] theorem handleOutputTrace_noRelease (i : Nat) (io : NwcTcpHandler) (soError : Int) :
    NoRelease (handleOutputTrace i io soError) := by
  unfold handleOutputTrace
  split
  · split <;> simp
  · simp

@[simp] theorem onConnectTrace_noRelease (i : Nat) : NoRelease (onConnectTrace i) := by
  simp [onConnectTrace]

@[simp] theorem ioCreateTrace_noRelease (o : Obj) : NoRelease (ioCreateTrace o) := by
  simp [ioCreateTrace]

@[simp] theorem connInitTrace_noRelease (i : Nat) : NoRelease (connInitTrace i) := by
  simp [connInitTrace]

@[simp] theorem attachTrace_noRelease (o : Obj) : NoRelease (attachTrace o) := by
  simp [attachTrace]

@[simp] theorem acceptTrace_noRelease (i : Nat) (newfd : Int) (last : Option Nat) :
    NoRelease (acceptTrace i newfd last) := by
  unfold acceptTrace
  split
  · simp
  · cases last <;> simp

/-! ## Callbacks -/

/-- A send through the handler, whatever it comes to. -/
theorem nwcIoSend_grows (s : Session) (buffer : List UInt8) (call : SysCall Nat) :
    Grows s (nwcIoSend s buffer call).2 := by
  rw [nwcIoSend_session]
  exact ⟨List.prefix_append _ _, rfl⟩

theorem nwcIoSend_softly (s : Session) (buffer : List UInt8) {call : SysCall Nat}
    (h : ¬HardError call) : GrowsSoftly s (nwcIoSend s buffer call).2 := by
  refine ⟨nwcIoSend_grows s buffer call, fun r hr => ?_⟩
  rw [nwcIoSend_session] at hr
  rcases List.mem_append.mp hr with hr | hr
  · exact Or.inl hr
  · right
    rw [List.mem_singleton.mp hr]
    unfold HardError at h
    unfold SendRecord.Soft
    dsimp only
    by_cases hpos : 0 < nwcTcpHandlerSendRc call
    · exact Or.inl hpos
    · refine Or.inr ?_
      by_contra hne
      exact h ⟨by omega, hne⟩

theorem nwcIoSend_failed {s : Session} {buffer : List UInt8} {call : SysCall Nat}
    (h : HardError call) : ∃ r ∈ (nwcIoSend s buffer call).2.sock.sends, ¬r.Soft := by
  rw [nwcIoSend_session]
  refine ⟨_, List.mem_append_right _ List.mem_cons_self, ?_⟩
  rintro (hpos | hagain)
  · have hle := h.1
    dsimp only at hpos
    omega
  · exact h.2 hagain

theorem Grows.close {s t : Session} (h : Grows s t) : Grows s (nwcConnectionClose t) :=
  ⟨h.sends, (nwcTcpHandlerClose_ioop _).trans h.ioop⟩

/-- A piece of a callback that closes nothing. -/
structure Quiet (s : Session) (l : Trace) (t : Session) : Prop where
  noRelease : NoRelease l
  softly : GrowsSoftly s t

/-- A piece of a callback that closes the connection after a send that failed. -/
structure Failed (i : Nat) (s : Session) (l : Trace) (t : Session) : Prop where
  doomed : Doomed i l
  grows : Grows s t
  failed : ∃ r ∈ t.sock.sends, ¬r.Soft

theorem Quiet.trans {s t u : Session} {l l' : Trace} (h : Quiet s l t) (h' : Quiet t l' u) :
    Quiet s (l ++ l') u :=
  ⟨noRelease_append.mpr ⟨h.noRelease, h'.noRelease⟩, h.softly.trans h'.softly⟩

theorem Quiet.then_failed {i : Nat} {s t u : Session} {l l' : Trace} (h : Quiet s l t)
    (h' : Failed i t l' u) : Failed i s (l ++ l') u :=
  ⟨h'.doomed.append_left l, h.softly.toGrows.trans h'.grows, h'.failed⟩

/-- A session that only its connection's buffers and estimators tell from the one before. -/
theorem quiet_same {s t : Session} {l : Trace} (hl : NoRelease l)
    (hsock : t.sock.sends = s.sock.sends) (hio : t.io.ioop = s.io.ioop) : Quiet s l t := by
  refine ⟨hl, ⟨⟨?_, hio⟩, fun r hr => Or.inl ?_⟩⟩
  · rw [hsock]
  · rw [← hsock]
    exact hr

/-- The way out of the parse loop. -/
def ExitPiece (i : Nat) (s : Session) (l : Trace) : ParseExit → Prop
  | .drained q => Quiet s l q.session
  | .closed t => Failed i s l t
  | .wild q => Quiet s l q.session

/-- One pass of the parse loop. -/
theorem parsePass_piece (i : Nat) (recvTs : UInt32) (env : PassEnv) (p : ParseState) :
    (∀ q, parsePass recvTs env p = .again q → Quiet p.session (passTrace i env p) q.session) ∧
    (∀ r, parsePass recvTs env p = .leave r → ExitPiece i p.session (passTrace i env p) r) := by
  unfold parsePass passTrace
  by_cases hshort : u32 p.rbytes < qosHdrLen
  · rw [if_pos hshort, if_pos hshort]
    exact Flow.at_leave (quiet_same (by simp) rfl rfl)
  · rw [if_neg hshort, if_neg hshort]
    cases p.session.conn.recvBuff.hdrAt p.pkgPtr with
    | none =>
      exact Flow.at_leave (quiet_same (by simp) rfl rfl)
    | some pkg =>
      dsimp only
      by_cases hpart : u32 p.rbytes < pkgTotal pkg
      · rw [if_pos hpart, if_pos hpart]
        exact Flow.at_leave (quiet_same (by simp) rfl rfl)
      · rw [if_neg hpart, if_neg hpart]
        cases p.session.conn.mode with
        | client =>
          exact Flow.at_again (quiet_same (by simp) rfl rfl)
        | server =>
          dsimp only
          cases hcan : p.session.io.canSend with
          | false =>
            exact Flow.at_again (quiet_same (by simp) rfl rfl)
          | true =>
            simp only [Bool.not_true, Bool.false_eq_true, if_false, nwcIoSend_rc]
            have hsame : GrowsSoftly p.session
                { p.session with handed := p.session.handed ++ [p.pkgBytes pkg] } :=
              ⟨⟨List.prefix_rfl, rfl⟩, fun _ hr => Or.inl hr⟩
            by_cases hhard : nwcTcpHandlerSendRc env.call ≤ 0 ∧
                nwcTcpHandlerSendRc env.call ≠ -EAGAIN
            · rw [if_pos hhard, if_pos hhard]
              refine Flow.at_leave ?_
              refine ⟨?_, (hsame.toGrows.trans (nwcIoSend_grows _ _ _)).close,
                nwcIoSend_failed hhard⟩
              exact ((((((closeTrace_doomed i _).append_right _).append_left _).append_left
                _).cons _).cons _)
            · rw [if_neg hhard, if_neg hhard]
              exact Flow.at_again ⟨by simp, hsame.trans (nwcIoSend_softly _ _ hhard)⟩

/-- A callback, by what it touched and what it made of the connection. -/
def CallPiece (i : Nat) (s : Session) (l : Trace) (o : Outcome) : Prop :=
  Quiet s l o.session ∨ Failed i s l o.session

/-- The parse loop. -/
theorem parseLoop_piece (i : Nat) (recvTs : UInt32) (envs : List PassEnv) (p : ParseState) :
    CallPiece i p.session (written (parsePass recvTs) (passTrace i) envs p)
      (afterLoop (passes (parsePass recvTs) envs p)) := by
  have hpass : ∀ l env q q', Quiet p.session l q.session → parsePass recvTs env q = .again q' →
      Quiet p.session (l ++ passTrace i env q) q'.session :=
    fun l env q q' hq hb => hq.trans ((parsePass_piece i recvTs env q).1 q' hb)
  have hexit : ∀ l env q r, Quiet p.session l q.session → parsePass recvTs env q = .leave r →
      ExitPiece i p.session (l ++ passTrace i env q) r := by
    intro l env q r hq hb
    have hr := (parsePass_piece i recvTs env q).2 r hb
    cases r with
    | drained q' => exact hq.trans hr
    | closed t => exact hq.then_failed hr
    | wild q' => exact hq.trans hr
  obtain ⟨hagain, hleave⟩ := written_rule hpass hexit envs (quiet_same noRelease_nil rfl rfl)
  rw [List.nil_append] at hagain hleave
  rcases hp : passes (parsePass recvTs) envs p with q | q | t | q
  · exact Or.inl (hagain q hp)
  · have hq : Quiet p.session _ q.session := hleave _ hp
    refine Or.inl ⟨hq.noRelease, hq.softly.trans ?_⟩
    show GrowsSoftly q.session (recvFinish q).session
    obtain ⟨c, hsession, -⟩ := recvFinish_session q
    rw [hsession]
    exact ⟨⟨List.prefix_rfl, rfl⟩, fun _ hr => Or.inl hr⟩
  · exact Or.inr (hleave _ hp)
  · exact Or.inl (hleave _ hp)

/-- `nwc_connection_on_recv`, when `recv` gave data or nothing yet. -/
theorem onRecv_piece (i : Nat) (s : Session) {a : Arrival} (ha : a.Segment) :
    CallPiece i s (onRecvTrace i s a) (nwcConnectionOnRecv s a) := by
  unfold Arrival.Segment at ha
  rw [onRecvTrace, nwcConnectionOnRecv]
  rcases nwcTcpHandlerRecv_final a.call with ⟨data, hfin, hrecv⟩ | ⟨errno, hfin, hneg, hagain⟩
  · rw [hfin] at ha
    have hpos : 0 < data.length := List.length_pos_iff.mpr ha
    rw [hrecv]
    dsimp only
    rw [if_neg (by omega), if_neg (by omega)]
    have hentry : Quiet s ([.read (.conn i) .handle, .read (.conn i) .rbytes,
        .read (.conn i) .rbytes, .read (.io i) .vtable] ++ recvAttempts i a.call
          ++ [.read (.conn i) .rbytes]) (parseEntry s data).session :=
      quiet_same (by simp) rfl rfl
    rw [List.append_cons]
    rcases parseLoop_piece i a.recvTs a.env (parseEntry s data) with hq | hf
    · exact Or.inl (hentry.trans hq)
    · exact Or.inr (hentry.then_failed hf)
  · rw [hfin] at ha
    have hle : -EAGAIN ≤ 0 := by decide
    rw [hagain.mpr ha, if_pos hle, if_pos rfl, if_pos hle, if_pos rfl]
    exact Or.inl (quiet_same (by simp) rfl rfl)

/-- `nwc_connection_on_recv`, when `recv` failed or met the end of the stream. -/
theorem onRecv_doomed (i : Nat) (s : Session) {a : Arrival} (ha : ¬a.Segment) :
    Doomed i (onRecvTrace i s a) ∧ Grows s (nwcConnectionOnRecv s a).session := by
  unfold Arrival.Segment at ha
  have hclose : (nwcTcpHandlerRecv a.call).1 ≤ 0 ∧ (nwcTcpHandlerRecv a.call).1 ≠ -EAGAIN := by
    rcases nwcTcpHandlerRecv_final a.call with ⟨data, hfin, hrecv⟩ | ⟨errno, hfin, hneg, hagain⟩
    · rw [hfin] at ha
      have hnil : data = [] := by simpa using ha
      rw [hrecv, hnil]
      simp [EAGAIN]
    · rw [hfin] at ha
      exact ⟨by omega, fun h => ha (hagain.mp h)⟩
  rw [onRecvTrace, nwcConnectionOnRecv, if_pos hclose.1, if_pos hclose.1, if_neg hclose.2,
    if_neg hclose.2]
  exact ⟨(closeTrace_doomed i _).append_left _, (Grows.refl s).close⟩

/-- The way out of the send loop. -/
def SendExitPiece (i : Nat) (s : Session) (l : Trace) : SendExit → Prop
  | .done _ t => Quiet s l t
  | .closed _ t => Failed i s l t

/-- One pass of the send loop. -/
theorem sendPass_piece (i : Nat) (env : SendEnv) (p : SendState) :
    (∀ q, sendPass env p = .again q → Quiet p.session (sendPassTrace i env p) q.session) ∧
    (∀ r, sendPass env p = .leave r →
      SendExitPiece i p.session (sendPassTrace i env p) r) := by
  unfold sendPass sendPassTrace
  by_cases hbudget : p.cur < p.session.conn.qos.sendBandwidth
  · rw [if_pos hbudget, if_pos hbudget]
    have hsame : GrowsSoftly p.session (createPackage env p.session).1 :=
      ⟨⟨List.prefix_rfl, rfl⟩, fun _ hr => Or.inl hr⟩
    simp only [nwcIoSend_rc]
    by_cases hhard : nwcTcpHandlerSendRc env.call ≤ 0 ∧ nwcTcpHandlerSendRc env.call ≠ -EAGAIN
    · rw [if_pos hhard, if_pos hhard.1, if_pos hhard.2]
      refine Flow.at_leave ?_
      refine ⟨?_, (hsame.toGrows.trans (nwcIoSend_grows _ _ _)).close, nwcIoSend_failed hhard⟩
      exact (((closeTrace_doomed i _).append_left _).cons _).cons _
    · rw [if_neg hhard]
      have hsent := hsame.trans (nwcIoSend_softly (createPackage env p.session).1
        (createPackage env p.session).2.bytes hhard)
      split
      · rw [if_neg (by omega)]
        exact Flow.at_leave ⟨by simp, hsent⟩
      · exact Flow.at_again ⟨by simp, hsent⟩
  · rw [if_neg hbudget, if_neg hbudget]
    exact Flow.at_leave (quiet_same (by simp) rfl rfl)

theorem onSend_piece (i : Nat) (s : Session) (envs : List SendEnv) :
    CallPiece i s (onSendTrace i s envs) (nwcConnectionOnSend s envs) := by
  rw [onSendTrace, nwcConnectionOnSend]
  cases s.io.canSend with
  | false => exact Or.inl (quiet_same (by simp) rfl rfl)
  | true =>
    rw [if_pos rfl, if_pos rfl]
    cases s.conn.mode with
    | server => exact Or.inl (quiet_same (by simp) rfl rfl)
    | client =>
      dsimp only
      have hpass : ∀ l env q q', Quiet s l q.session → sendPass env q = .again q' →
          Quiet s (l ++ sendPassTrace i env q) q'.session :=
        fun l env q q' hq hb => hq.trans ((sendPass_piece i env q).1 q' hb)
      have hexit : ∀ l env q r, Quiet s l q.session → sendPass env q = .leave r →
          SendExitPiece i s (l ++ sendPassTrace i env q) r := by
        intro l env q r hq hb
        have hr := (sendPass_piece i env q).2 r hb
        cases r with
        | done rc t => exact hq.trans hr
        | closed rc t => exact hq.then_failed hr
      obtain ⟨hagain, hleave⟩ := written_rule hpass hexit envs
        (l := [.read (.conn i) .handle, .read (.io i) .canSend, .read (.conn i) .cfg])
        (s := { session := s, cur := 0, rc := 0 }) (quiet_same (by simp) rfl rfl)
      rcases hp : passes sendPass envs { session := s, cur := 0, rc := 0 } with q | r | r
      · exact Or.inl (hagain q hp)
      · exact Or.inl (hleave _ hp)
      · exact Or.inr (hleave _ hp)

/-! ## Turns -/

/-- A turn goes well, or it closes the connection because of something that failed. -/
inductive TurnPiece (i : Nat) (alive : Prop) (p : Peer) (t : Turn) : Prop where
  | quiet (halive : alive) (h : Quiet p.session t.trace t.peer.session)
  | failed (h : Failed i p.session t.trace t.peer.session)
  | dead (hdead : ¬alive) (h : Doomed i t.trace) (hg : Grows p.session t.peer.session)

theorem ofOutcome_session (p : Peer) (trace : Trace) (o : Outcome) :
    (Turn.ofOutcome p trace o).peer.session = o.session := by
  cases o <;> rfl

theorem ofOutcome_trace (p : Peer) (trace : Trace) (o : Outcome) :
    (Turn.ofOutcome p trace o).trace = trace := by
  cases o <;> rfl

/-- A turn that consists of some accesses and a callback. -/
theorem turnPiece_of_call {i : Nat} {s : Session} {l l' : Trace} {p : Peer} {o : Outcome}
    (hl : NoRelease l) (hsock : s.sock.sends = p.session.sock.sends)
    (hio : s.io.ioop = p.session.io.ioop) (h : CallPiece i s l' o) (q : Peer) :
    TurnPiece i True p (Turn.ofOutcome q (l ++ l') o) := by
  have hfront : Quiet p.session l s := quiet_same hl hsock hio
  rcases h with h | h
  · refine .quiet trivial ?_
    rw [ofOutcome_session, ofOutcome_trace]
    exact hfront.trans h
  · refine .failed ?_
    rw [ofOutcome_session, ofOutcome_trace]
    exact hfront.then_failed h

theorem inputTurn_piece (i : Nat) {p : Peer} (hio : p.session.io.ioop = true) (a : Arrival) :
    TurnPiece i a.Segment p (inputTurn i p a) := by
  have hturn : inputTurn i p a
      = Turn.ofOutcome p (handleInputTrace i ++ callTrace i ++ onRecvTrace i p.session a)
        (nwcConnectionOnRecv p.session a) := by
    simp only [inputTurn, nwcTcpHandleInput, hio, if_true]
  rw [hturn]
  by_cases ha : a.Segment
  · cases turnPiece_of_call (l := handleInputTrace i ++ callTrace i) (p := p) (by simp) rfl rfl
      (onRecv_piece i p.session ha) p with
    | quiet _ h => exact .quiet ha h
    | failed h => exact .failed h
    | dead hdead _ _ => exact absurd trivial hdead
  · obtain ⟨hdoomed, hgrows⟩ := onRecv_doomed i p.session ha
    refine .dead ha ?_ ?_
    · rw [ofOutcome_trace]
      exact hdoomed.append_left _
    · rw [ofOutcome_session]
      exact hgrows

theorem outputTurn_piece (i : Nat) (p : Peer) (soError : Int) (envs : List SendEnv) :
    TurnPiece i True p (outputTurn i p soError envs) := by
  have hio : (nwcTcpHandleOutput p.session.io soError).1.ioop = p.session.io.ioop := by
    unfold nwcTcpHandleOutput
    dsimp only
    split
    · split <;> rfl
    · rfl
  unfold outputTurn
  dsimp only
  split
  · exact .quiet trivial (quiet_same (by simp) rfl hio)
  · exact turnPiece_of_call (p := p) (s := { p.session with
        io := (nwcTcpHandleOutput p.session.io soError).1 })
      (l := handleOutputTrace i p.session.io soError ++ callTrace i) (by simp) rfl hio
      (onSend_piece i _ envs) _
  · exact .quiet trivial (quiet_same (by simp) rfl hio)

theorem tickTurn_piece (i : Nat) (p : Peer) (envs : List SendEnv) :
    TurnPiece i True p (tickTurn i p envs) :=
  turnPiece_of_call noRelease_nil rfl rfl (onSend_piece i p.session envs) p

theorem statTurn_piece (i : Nat) (p : Peer) (now : UInt32) :
    TurnPiece i True p (statTurn i p now) :=
  .quiet trivial (quiet_same (by simp [statTurn]) rfl rfl)

end Nwchecker
