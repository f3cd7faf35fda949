import Nwchecker.Lib.Loop
import Nwchecker.Connection.Session

/-!
# `nwc_connection_on_recv`

The receive callback: one `recv`, then a loop that takes complete packages off the front of the
buffer, then a `memmove` of what is left.

`parsePass` is one pass of the `while (1)` loop. It can go wrong in two ways that the source does
not guard against, and the model keeps both: `continue` while `can_send` is clear leads back to
the same state, and `pkg_ptr` advances at pointer width while the test before it is 32 bits wide,
so `pkg_ptr` can leave the buffer (`ParseExit.wild`).

After that come the lemmas that say once what a pass does, in terms of the bytes that are still
to be parsed (`ParseState.todo`).
-/

namespace Nwchecker

open Doubles Framing Loop Words

/-! ## The loop -/

/-- What the outside answers during one pass: the clock, `malloc` and `send`. -/
structure PassEnv where
  now : UInt32
  stale : UInt32
  call : SysCall Nat

/-- The local variables of the loop. `pkgPtr` is `pkg_ptr - nwc->recv_buff`. -/
structure ParseState where
  session : Session
  pkgPtr : Nat
  rbytes : Int

inductive ParseExit where
  /-- `break`: no complete package is left. -/
  | drained (p : ParseState)
  /-- `break` after a failed send and `nwc_connection_close`. -/
  | closed (s : Session)
  /-- `pkg` is not inside `recv_buff`. -/
  | wild (p : ParseState)

/-- `qos_hdr_len + pkg->length`, in `uint32_t`. -/
def pkgTotal (pkg : NwcQosHdr) : Nat := (qosHdrLen + pkg.length.toNat) % 4294967296

/-- `pkg_ptr = pkg_ptr + qos_hdr_len + pkg->length; rbytes -= qos_hdr_len + pkg->length;` -/
def ParseState.advance (p : ParseState) (pkg : NwcQosHdr) : ParseState :=
  { p with
    pkgPtr := p.pkgPtr + qosHdrLen + pkg.length.toNat
    rbytes := i32 ((u32 p.rbytes + 4294967296 - pkgTotal pkg) % 4294967296) }

/-- The bytes of the package that `pkg_ptr` points at. -/
def ParseState.pkgBytes (p : ParseState) (pkg : NwcQosHdr) : List UInt8 :=
  p.session.conn.recvBuff.window p.pkgPtr (qosHdrLen + pkg.length.toNat)

/-- The ack that the server makes for a package. -/
def ackPackage (recvTs : UInt32) (pkg : NwcQosHdr) (env : PassEnv) : NwcPackage :=
  let ack := nwcQosCreateAckPackage pkg.timestamp env.stale
  { ack with hdr := { ack.hdr with recvDelay := env.now - recvTs, timestamp := env.now } }

def parsePass (recvTs : UInt32) (env : PassEnv) (p : ParseState) : Flow ParseState ParseExit :=
  if u32 p.rbytes < qosHdrLen then .leave (.drained p)
  else
    match p.session.conn.recvBuff.hdrAt p.pkgPtr with
    | none => .leave (.wild p)
    | some pkg =>
      -- the sum wraps around, so a huge length can pass
      if u32 p.rbytes < pkgTotal pkg then .leave (.drained p)
      else
        let handed := p.session.handed ++ [p.pkgBytes pkg]
        match p.session.conn.mode with
        | .server =>
          if !p.session.io.canSend then .again p -- `continue`
          else
            let r := nwcIoSend { p.session with handed := handed }
              (ackPackage recvTs pkg env).bytes env.call
            if r.1 ≤ 0 ∧ r.1 ≠ -EAGAIN then .leave (.closed (nwcConnectionClose r.2))
            -- a short write and `-EAGAIN` go on as if the ack were sent
            else .again (ParseState.advance { p with session := r.2 } pkg)
        | .client =>
          let qos := nwcQosProcessPackage roundDouble p.session.conn.qos pkg recvTs
          let session :=
            { p.session with conn := { p.session.conn with qos := qos }, handed := handed }
          .again (ParseState.advance { p with session := session } pkg)

/-! ## The callback -/

/-- The answers of one call: `recv`, the clock after it, and one answer a pass of the loop. -/
structure Arrival where
  call : SysCall (List UInt8)
  recvTs : UInt32
  env : List PassEnv

/-- `recv` returned at least one byte, or there was nothing to read yet. -/
def Arrival.Segment (a : Arrival) : Prop :=
  match a.call.final with
  | .ok data => data ≠ []
  | .error errno => errno = EAGAIN

instance (a : Arrival) : Decidable a.Segment :=
  match h : a.call.final with
  | .ok data => decidable_of_iff (data ≠ []) (by simp [Arrival.Segment, h])
  | .error errno => decidable_of_iff (errno = EAGAIN) (by simp [Arrival.Segment, h])

/-- The length asked of `recv`: `RECV_BUFFER_LEN - nwc->rbytes`. -/
def NwcConnection.recvRequest (c : NwcConnection) : Nat := RECV_BUFFER_LEN - c.rbytes

/-- The state at the first pass, after `recv` returned `data`. -/
def parseEntry (s : Session) (data : List UInt8) : ParseState where
  session :=
    { s with
      conn := { s.conn with recvBuff := s.conn.recvBuff.store s.conn.rbytes data }
      sock := { s.sock with recvs := s.sock.recvs ++ [data] } }
  pkgPtr := 0
  rbytes := i32 ((data.length + s.conn.rbytes) % 4294967296)

/-- After the loop: keep the bytes that are left for the next call. -/
def recvFinish (p : ParseState) : Outcome :=
  if 0 < p.rbytes then
    if h : p.pkgPtr + p.rbytes.toNat ≤ RECV_BUFFER_LEN then
      .returned 0
        { p.session with
          conn :=
            { p.session.conn with
              recvBuff := p.session.conn.recvBuff.moveFront p.pkgPtr p.rbytes.toNat h
              rbytes := p.rbytes.toNat
              rbytes_le := by omega } }
    else .wild p.session
  else
    .returned 0
      { p.session with conn := { p.session.conn with rbytes := 0, rbytes_le := Nat.zero_le _ } }

/-- What a way out of the loop, or being still in it, makes of the callback. -/
def afterLoop : Flow ParseState ParseExit → Outcome
  | .again p => .inLoop p.session
  | .leave (.drained p) => recvFinish p
  | .leave (.closed s) => .closed 0 s
  | .leave (.wild p) => .wild p.session

def nwcConnectionOnRecv (s : Session) (a : Arrival) : Outcome :=
  let r := nwcTcpHandlerRecv a.call
  -- zero is the end of the stream
  if r.1 ≤ 0 then
    if r.1 = -EAGAIN then .returned 0 s else .closed r.1 (nwcConnectionClose s)
  else afterLoop (passes (parsePass a.recvTs) a.env (parseEntry s r.2))

/-! ## What is still to be parsed -/

/-- The bytes from `pkg_ptr` to the end of what was received. -/
def ParseState.todo (p : ParseState) : List UInt8 :=
  p.session.conn.recvBuff.window p.pkgPtr p.rbytes.toNat

/-- `pkg_ptr` and `rbytes` delimit the end of the `n` bytes held at the first pass. -/
structure ParseState.Inside (p : ParseState) (n : Nat) : Prop where
  sum : (p.pkgPtr : Int) + p.rbytes = n
  nonneg : 0 ≤ p.rbytes
  fits : n ≤ RECV_BUFFER_LEN

theorem ParseState.Inside.todo_length {p : ParseState} {n : Nat} (h : p.Inside n) :
    p.todo.length = p.rbytes.toNat := by
  have := h.sum
  have := h.nonneg
  have := h.fits
  exact RecvBuffer.window_length (by omega)

theorem ParseState.Inside.u32_rbytes {p : ParseState} {n : Nat} (h : p.Inside n) :
    u32 p.rbytes = p.todo.length := by
  have := h.sum
  have := h.nonneg
  have := h.fits
  rw [h.todo_length, u32_of_nonneg h.nonneg]
  unfold RECV_BUFFER_LEN at *
  omega

theorem ParseState.Inside.hdrAt {p : ParseState} {n : Nat} (h : p.Inside n)
    (hlen : qosHdrLen ≤ p.todo.length) :
    p.session.conn.recvBuff.hdrAt p.pkgPtr = some (NwcQosHdr.ofBytes p.todo) := by
  have := h.sum
  have := h.nonneg
  have := h.fits
  rw [h.todo_length] at hlen
  exact RecvBuffer.hdrAt_eq hlen (by omega)

/--
The header in front claims so many bytes that header and payload together do not fit in 32 bits.
No buffer holds such a package, but the wrapped sum passes the test of the loop.
-/
def Overflows (l : List UInt8) : Prop :=
  qosHdrLen ≤ l.length ∧ 4294967296 ≤ qosFormat.frameLen l

instance (l : List UInt8) : Decidable (Overflows l) := inferInstanceAs (Decidable (_ ∧ _))

/-- The package in front passes both tests of the loop. -/
def Accepted (l : List UInt8) : Prop := qosFormat.Complete l ∨ Overflows l

instance (l : List UInt8) : Decidable (Accepted l) := inferInstanceAs (Decidable (_ ∨ _))

theorem pkgTotal_ofBytes (l : List UInt8) :
    pkgTotal (NwcQosHdr.ofBytes l) = qosFormat.frameLen l % 4294967296 := by
  rw [pkgTotal, qosFormat_frameLen]

/-- A length field has 32 bits, so the sum wraps at most once. -/
theorem frameLen_lt (l : List UInt8) : qosFormat.frameLen l < 4294967296 + qosHdrLen := by
  have := UInt32.toNat_lt (NwcQosHdr.ofBytes l).length
  rw [qosFormat_frameLen]
  omega

theorem ParseState.Inside.todo_le {p : ParseState} {n : Nat} (h : p.Inside n) :
    p.todo.length ≤ n := by
  have := h.sum
  have := h.nonneg
  rw [h.todo_length]
  omega

/-- What follows the loop changes the receive buffer at most. -/
theorem recvFinish_session (p : ParseState) :
    ∃ c : NwcConnection, (recvFinish p).session = { p.session with conn := c } ∧
      c.mode = p.session.conn.mode ∧ c.qos = p.session.conn.qos := by
  unfold recvFinish
  split
  · split
    · exact ⟨_, rfl, rfl, rfl⟩
    · exact ⟨_, rfl, rfl, rfl⟩
  · exact ⟨_, rfl, rfl, rfl⟩

/-- The `memmove` keeps what the loop left. -/
theorem ParseState.Inside.finish {p : ParseState} {n : Nat} (h : p.Inside n) :
    ∃ c : NwcConnection, recvFinish p = .returned 0 { p.session with conn := c } ∧
      c.mode = p.session.conn.mode ∧ c.qos = p.session.conn.qos ∧ c.leftover = p.todo := by
  have hsum := h.sum
  have hfits := h.fits
  have hnn := h.nonneg
  unfold recvFinish
  split
  · have hmoves : p.pkgPtr + p.rbytes.toNat ≤ RECV_BUFFER_LEN := by omega
    rw [dif_pos hmoves]
    exact ⟨_, rfl, rfl, rfl, RecvBuffer.moveFront_window hmoves⟩
  · have hnil : p.todo = [] := by
      rw [← List.length_eq_zero_iff, h.todo_length]
      omega
    exact ⟨_, rfl, rfl, rfl, hnil.symm⟩

/-- The two tests of the loop, said about the bytes. -/
theorem ParseState.Inside.accepted_iff {p : ParseState} {n : Nat} (h : p.Inside n) :
    Accepted p.todo ↔
      qosHdrLen ≤ p.todo.length ∧ pkgTotal (NwcQosHdr.ofBytes p.todo) ≤ p.todo.length := by
  have hle := h.todo_le
  have hfits := h.fits
  have hlt := frameLen_lt p.todo
  unfold RECV_BUFFER_LEN at hfits
  unfold Accepted Overflows Format.Complete
  rw [pkgTotal_ofBytes, qosFormat_hdrLen]
  constructor
  · rintro (⟨h1, h2⟩ | ⟨h1, h2⟩)
    · exact ⟨h1, by omega⟩
    · exact ⟨h1, by omega⟩
  · rintro ⟨h1, h2⟩
    by_cases hov : 4294967296 ≤ qosFormat.frameLen p.todo
    · exact Or.inr ⟨h1, hov⟩
    · exact Or.inl ⟨h1, by omega⟩

/-! ## What a pass does -/

/-- The state after a client has processed the package in front. -/
def clientDone (recvTs : UInt32) (p : ParseState) : ParseState :=
  let pkg := NwcQosHdr.ofBytes p.todo
  ParseState.advance
    { p with
      session :=
        { p.session with
          conn :=
            { p.session.conn with
              qos := nwcQosProcessPackage roundDouble p.session.conn.qos pkg recvTs }
          handed := p.session.handed ++ [p.pkgBytes pkg] } } pkg

/-- The session after a server has sent the ack for the package in front. -/
def serverSent (recvTs : UInt32) (env : PassEnv) (p : ParseState) : Session :=
  let pkg := NwcQosHdr.ofBytes p.todo
  (nwcIoSend { p.session with handed := p.session.handed ++ [p.pkgBytes pkg] }
    (ackPackage recvTs pkg env).bytes env.call).2

def serverDone (recvTs : UInt32) (env : PassEnv) (p : ParseState) : ParseState :=
  ParseState.advance { p with session := serverSent recvTs env p } (NwcQosHdr.ofBytes p.todo)

/-- `nwc_io_send` failed for good: the server closes the connection. -/
def HardError (call : SysCall Nat) : Prop :=
  nwcTcpHandlerSendRc call ≤ 0 ∧ nwcTcpHandlerSendRc call ≠ -EAGAIN

instance (call : SysCall Nat) : Decidable (HardError call) := inferInstanceAs (Decidable (_ ∧ _))

variable {recvTs : UInt32} {env : PassEnv} {p : ParseState} {n : Nat}

theorem parsePass_drained (h : p.Inside n) (ha : ¬Accepted p.todo) :
    parsePass recvTs env p = .leave (.drained p) := by
  rw [h.accepted_iff] at ha
  rw [parsePass, h.u32_rbytes]
  by_cases hlen : p.todo.length < qosHdrLen
  · rw [if_pos hlen]
  · rw [if_neg hlen, h.hdrAt (by omega)]
    dsimp only
    rw [if_pos (by omega)]

theorem parsePass_client (h : p.Inside n) (hm : p.session.conn.mode = .client)
    (ha : Accepted p.todo) :
    parsePass recvTs env p = .again (clientDone recvTs p) := by
  obtain ⟨h1, h2⟩ := h.accepted_iff.mp ha
  rw [parsePass, h.u32_rbytes, if_neg (by omega), h.hdrAt h1]
  dsimp only
  rw [if_neg (by omega)]
  split
  · next hm' =>
    rw [hm] at hm'
    cases hm'
  · rfl

theorem parsePass_stuck (h : p.Inside n) (hm : p.session.conn.mode = .server)
    (hs : p.session.io.canSend = false) (ha : Accepted p.todo) :
    parsePass recvTs env p = .again p := by
  obtain ⟨h1, h2⟩ := h.accepted_iff.mp ha
  rw [parsePass, h.u32_rbytes, if_neg (by omega), h.hdrAt h1]
  dsimp only
  rw [if_neg (by omega), hm, hs]
  rfl

theorem parsePass_server (recvTs : UInt32) (env : PassEnv) (h : p.Inside n)
    (hm : p.session.conn.mode = .server)
    (hs : p.session.io.canSend = true) (ha : Accepted p.todo) :
    parsePass recvTs env p
      = if HardError env.call then .leave (.closed (nwcConnectionClose (serverSent recvTs env p)))
        else .again (serverDone recvTs env p) := by
  obtain ⟨h1, h2⟩ := h.accepted_iff.mp ha
  rw [parsePass, h.u32_rbytes, if_neg (by omega), h.hdrAt h1]
  dsimp only
  rw [if_neg (by omega), hm, hs]
  simp only [Bool.not_true, Bool.false_eq_true, if_false, nwcIoSend_rc]
  rfl

/-! ## How far a pass gets -/

/-- Advancing over a complete package keeps the cursor inside. -/
theorem ParseState.Inside.advance (h : p.Inside n) (hc : qosFormat.Complete p.todo) {s : Session} :
    (ParseState.advance { p with session := s } (NwcQosHdr.ofBytes p.todo)).pkgPtr
        = p.pkgPtr + qosFormat.frameLen p.todo ∧
      (ParseState.advance { p with session := s } (NwcQosHdr.ofBytes p.todo)).rbytes
        = p.rbytes - qosFormat.frameLen p.todo := by
  have hle := h.todo_le
  have hlen := h.todo_length
  have hfits := h.fits
  have hnn := h.nonneg
  have htot := hc.2
  unfold RECV_BUFFER_LEN at hfits
  refine ⟨?_, ?_⟩
  · simp only [ParseState.advance, qosFormat_frameLen]
    omega
  · have hu : u32 p.rbytes = p.todo.length := h.u32_rbytes
    simp only [ParseState.advance, pkgTotal_ofBytes, hu]
    rw [i32_of_lt (by omega)]
    omega

/-- What the loop still has to parse after a package was taken off the front. -/
theorem todo_advance (h : p.Inside n) (hc : qosFormat.Complete p.todo) {s : Session}
    (hs : s.conn.recvBuff = p.session.conn.recvBuff) :
    (ParseState.advance { p with session := s } (NwcQosHdr.ofBytes p.todo)).Inside n ∧
      (ParseState.advance { p with session := s } (NwcQosHdr.ofBytes p.todo)).todo
        = p.todo.drop (qosFormat.frameLen p.todo) := by
  obtain ⟨h1, h2⟩ := h.advance hc (s := s)
  have hsum := h.sum
  have hnn := h.nonneg
  have hlen := h.todo_length
  have htot := hc.2
  refine ⟨⟨by omega, by omega, h.fits⟩, ?_⟩
  show s.conn.recvBuff.window
    (ParseState.advance { p with session := s } (NwcQosHdr.ofBytes p.todo)).pkgPtr
    (ParseState.advance { p with session := s } (NwcQosHdr.ofBytes p.todo)).rbytes.toNat
      = (p.session.conn.recvBuff.window p.pkgPtr p.rbytes.toNat).drop (qosFormat.frameLen p.todo)
  rw [h1, h2, hs, RecvBuffer.window_drop]
  congr 1
  omega

/-- The package in front is the frame at the front of the bytes still to be parsed. -/
theorem pkgBytes_eq (h : p.Inside n) (hc : qosFormat.Complete p.todo) :
    p.pkgBytes (NwcQosHdr.ofBytes p.todo) = p.todo.take (qosFormat.frameLen p.todo) := by
  have hlen := h.todo_length
  have htot := hc.2
  rw [hlen] at htot
  rw [ParseState.pkgBytes, ← qosFormat_frameLen, ← RecvBuffer.window_take htot]
  rfl

/-- The cursor at the first pass. -/
theorem parseEntry_inside (s : Session) {data : List UInt8}
    (h : data.length ≤ s.conn.recvRequest) :
    (parseEntry s data).Inside (s.conn.rbytes + data.length) ∧
      (parseEntry s data).todo = s.conn.leftover ++ data := by
  have hle := s.conn.rbytes_le
  unfold NwcConnection.recvRequest at h
  have hr : (parseEntry s data).rbytes = ((s.conn.rbytes + data.length : Nat) : Int) := by
    show i32 ((data.length + s.conn.rbytes) % 4294967296) = _
    unfold RECV_BUFFER_LEN at *
    rw [i32_of_lt (by omega)]
    omega
  refine ⟨⟨?_, ?_, by omega⟩, ?_⟩
  · rw [hr]
    simp [parseEntry]
  · rw [hr]
    omega
  · rw [ParseState.todo, hr, NwcConnection.leftover]
    exact RecvBuffer.store_window (by omega)

end Nwchecker
