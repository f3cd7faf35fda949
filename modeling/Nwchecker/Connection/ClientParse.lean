import Nwchecker.Connection.ParseEnds
import Nwchecker.Connection.Stream

/-!
# The parse loop of a client

What a client does with any bytes whatever. The bytes in hand are cut into frames and a rest. The
client processes the frames one by one and keeps the rest for the next call
(`clientLoop_returns`), unless the rest starts with a header that overflows: then it processes that
one too and leaves its buffer (`clientLoop_wild`).
-/

namespace Nwchecker

open Doubles Framing Loop Words

/-- The estimators after the packages `fs`, one after the other. -/
def processAll (recvTs : UInt32) (qos : NwcQosProtocol) (fs : List (List UInt8)) :
    NwcQosProtocol :=
  fs.foldl (fun qos f => nwcQosProcessPackage roundDouble qos (NwcQosHdr.ofBytes f) recvTs) qos

/-- The loop of a client stands in front of `todo`, after so many packages. -/
structure ClientHead (n : Nat) (todo : List UInt8) (handed : List (List UInt8))
    (qos : NwcQosProtocol) (p : ParseState) : Prop where
  inside : p.Inside n
  client : p.session.conn.mode = .client
  todo_eq : p.todo = todo
  handed_eq : p.session.handed = handed
  qos_eq : p.session.conn.qos = qos

variable {n : Nat} {todo : List UInt8} {handed : List (List UInt8)} {qos : NwcQosProtocol}
  {p : ParseState} {recvTs : UInt32} {fs : List (List UInt8)} {rest data : List UInt8}
  {s : Session} {envs : List PassEnv}

/-- One pass over a whole frame. -/
theorem ClientHead.pass {f : List UInt8} (h : ClientHead n (f ++ todo) handed qos p)
    (hf : qosFormat.IsFrame f) (recvTs : UInt32) (env : PassEnv) :
    ∃ q, parsePass recvTs env p = .again q ∧
      ClientHead n todo (handed ++ [f])
        (nwcQosProcessPackage roundDouble qos (NwcQosHdr.ofBytes f) recvTs) q := by
  have hc : qosFormat.Complete p.todo := by
    rw [h.todo_eq]
    exact hf.complete_append todo
  have hlen : qosFormat.frameLen p.todo = f.length := by
    rw [h.todo_eq, hf.frameLen_append]
  have hbytes : p.pkgBytes (NwcQosHdr.ofBytes p.todo) = f := by
    rw [pkgBytes_eq h.inside hc, hlen, h.todo_eq]
    exact List.take_left' rfl
  have hhdr : NwcQosHdr.ofBytes p.todo = NwcQosHdr.ofBytes f := by
    rw [← NwcQosHdr.ofBytes_take (l := p.todo) hf.1, h.todo_eq]
    exact congrArg _ (List.take_left' rfl)
  obtain ⟨hin, htodo⟩ := todo_advance h.inside hc (s := (clientDone recvTs p).session) rfl
  refine ⟨_, parsePass_client h.inside h.client (Or.inl hc), hin, h.client, ?_, ?_, ?_⟩
  · refine htodo.trans ?_
    rw [hlen, h.todo_eq]
    exact List.drop_left' rfl
  · show p.session.handed ++ [p.pkgBytes (NwcQosHdr.ofBytes p.todo)] = _
    rw [hbytes, h.handed_eq]
  · show nwcQosProcessPackage roundDouble p.session.conn.qos (NwcQosHdr.ofBytes p.todo) recvTs = _
    rw [hhdr, h.qos_eq]

/-- The passes over all frames in front. -/
theorem ClientHead.passes (recvTs : UInt32) : ∀ {fs handed : List (List UInt8)}
    {qos : NwcQosProtocol} {p : ParseState} (envs : List PassEnv),
    ClientHead n (fs.flatten ++ rest) handed qos p →
    (∀ f ∈ fs, qosFormat.IsFrame f) → fs.length ≤ envs.length →
    ∃ q, passes (parsePass recvTs) envs p = passes (parsePass recvTs) (envs.drop fs.length) q ∧
      ClientHead n rest (handed ++ fs) (processAll recvTs qos fs) q
  | [], handed, qos, p, _, h, _, _ => ⟨p, rfl, by simpa [processAll] using h⟩
  | f :: fs, handed, qos, p, [], _, _, hlen => by simp at hlen
  | f :: fs, handed, qos, p, env :: envs, h, hfs, hlen => by
    rw [List.flatten_cons, List.append_assoc] at h
    obtain ⟨q, hq, hhead⟩ := h.pass (hfs f List.mem_cons_self) recvTs env
    obtain ⟨r, hr, hrest⟩ := hhead.passes recvTs envs
      (fun g hg => hfs g (List.mem_cons_of_mem _ hg)) (Nat.le_of_succ_le_succ hlen)
    refine ⟨r, ?_, ?_⟩
    · rw [passes_cons_again hq]
      exact hr
    · rw [List.append_assoc] at hrest
      exact hrest

/-- The first pass. -/
theorem clientHead_entry (hm : s.conn.mode = .client) (hreq : data.length ≤ s.conn.recvRequest) :
    ClientHead (s.conn.rbytes + data.length) (s.conn.leftover ++ data) s.handed s.conn.qos
      (parseEntry s data) := by
  obtain ⟨hin, htodo⟩ := parseEntry_inside s hreq
  exact ⟨hin, hm, htodo, rfl, rfl⟩

/-- The `memmove` keeps what is left. -/
theorem ClientHead.finish (h : ClientHead n rest handed qos p) :
    ∃ t, recvFinish p = .returned 0 t ∧ t.conn.mode = .client ∧ t.conn.leftover = rest ∧
      t.handed = handed ∧ t.conn.qos = qos := by
  obtain ⟨c, hfinish, hmode, hqos, hleft⟩ := h.inside.finish
  exact ⟨_, hfinish, hmode.trans h.client, hleft.trans h.todo_eq, h.handed_eq, hqos.trans h.qos_eq⟩

/-- A header that overflows is the header of what is processed for it. -/
theorem frameLen_pkgBytes (h : p.Inside n) (ho : Overflows p.todo) :
    qosFormat.frameLen (p.pkgBytes (NwcQosHdr.ofBytes p.todo)) = qosFormat.frameLen p.todo := by
  have hlen := ho.1
  rw [h.todo_length] at hlen
  have htake : (p.pkgBytes (NwcQosHdr.ofBytes p.todo)).take qosHdrLen
      = p.todo.take qosHdrLen := by
    rw [ParseState.pkgBytes, ParseState.todo, RecvBuffer.window_take (by omega),
      RecvBuffer.window_take hlen]
  unfold Format.frameLen
  rw [qosFormat_hdrLen, htake]

/-- After an overflowing package there are bytes left, and they are not in the buffer. -/
theorem ClientHead.overflow (h : ClientHead n rest handed qos p) (ho : Overflows rest)
    (env env' : PassEnv) (envs : List PassEnv) :
    ∃ t f, afterLoop (Loop.passes (parsePass recvTs) (env :: env' :: envs) p) = .wild t ∧
      t.conn.mode = .client ∧ t.handed = handed ++ [f] ∧
        qosFormat.frameLen f = qosFormat.frameLen rest := by
  obtain rfl := h.todo_eq
  have hlt := frameLen_lt p.todo
  have hlong : 4294967296 ≤ qosFormat.frameLen p.todo := ho.2
  have hle := h.inside.todo_le
  have hfits := h.inside.fits
  have hhdr := ho.1
  have hptr : (clientDone recvTs p).pkgPtr = p.pkgPtr + qosFormat.frameLen p.todo :=
    (h.inside.advance_overflow ho (clientDone recvTs p).session).1
  have hcount : (clientDone recvTs p).rbytes
      = ((p.todo.length + 4294967296 - qosFormat.frameLen p.todo : Nat) : Int) :=
    (h.inside.advance_overflow ho (clientDone recvTs p).session).2
  have hhanded : (clientDone recvTs p).session.handed
      = handed ++ [p.pkgBytes (NwcQosHdr.ofBytes p.todo)] := by
    show p.session.handed ++ _ = _
    rw [h.handed_eq]
  refine ⟨(clientDone recvTs p).session, _, ?_, h.client, hhanded,
    frameLen_pkgBytes h.inside ho⟩
  -- the next pass reads a header out there, or the `memmove` does
  have hpast : ¬(clientDone recvTs p).pkgPtr ≤ RECV_BUFFER_LEN := by
    rw [hptr]
    unfold RECV_BUFFER_LEN at *
    omega
  have hpos : 0 < (clientDone recvTs p).rbytes := by
    rw [hcount]
    omega
  rw [passes_cons_again (parsePass_client h.inside h.client (Or.inr ho))]
  by_cases hshort : u32 (clientDone recvTs p).rbytes < qosHdrLen
  · have hpass : parsePass recvTs env' (clientDone recvTs p)
        = .leave (.drained (clientDone recvTs p)) := by
      rw [parsePass, if_pos hshort]
    rw [passes_cons_leave hpass]
    have hout : ¬(clientDone recvTs p).pkgPtr + (clientDone recvTs p).rbytes.toNat
        ≤ RECV_BUFFER_LEN := fun h => hpast (Nat.le_of_add_right_le h)
    show recvFinish (clientDone recvTs p) = _
    rw [recvFinish, if_pos hpos, dif_neg hout]
  · have hpass : parsePass recvTs env' (clientDone recvTs p)
        = .leave (.wild (clientDone recvTs p)) := by
      rw [parsePass, if_neg hshort, RecvBuffer.hdrAt,
        if_neg (fun h => hpast (Nat.le_of_add_right_le h))]
    rw [passes_cons_leave hpass]
    rfl

/-! ## The loop -/

/-- Frames within the receive buffer are at most as many as headers that fit in it. -/
theorem frames_fit (hfs : ∀ f ∈ fs, qosFormat.IsFrame f)
    (hfits : (fs.flatten ++ rest).length ≤ RECV_BUFFER_LEN) :
    qosHdrLen * fs.length + rest.length ≤ RECV_BUFFER_LEN := by
  have hle : qosHdrLen * fs.length ≤ fs.flatten.length := by
    clear hfits
    induction fs with
    | nil => exact Nat.zero_le _
    | cons f fs ih =>
      have hf := (hfs f List.mem_cons_self).1
      have hrec := ih fun g hg => hfs g (List.mem_cons_of_mem _ hg)
      rw [qosFormat_hdrLen] at hf
      rw [List.flatten_cons, List.length_append, List.length_cons, Nat.mul_succ]
      omega
  rw [List.length_append] at hfits
  omega

/-- The head behind the frames, with answers for two passes more or for one. -/
theorem clientLoop_reaches (recvTs : UInt32) (hm : s.conn.mode = .client)
    (hreq : data.length ≤ s.conn.recvRequest)
    (hcut : cut qosFormat (s.conn.leftover ++ data) = (fs, rest))
    (hlen : RECV_BUFFER_LEN / qosHdrLen < envs.length) :
    ∃ q, passes (parsePass recvTs) envs (parseEntry s data)
        = passes (parsePass recvTs) (envs.drop fs.length) q ∧
      ClientHead (s.conn.rbytes + data.length) rest (s.handed ++ fs)
        (processAll recvTs s.conn.qos fs) q ∧
      qosHdrLen * fs.length + rest.length ≤ RECV_BUFFER_LEN := by
  have hparsed := cut_parsed (F := qosFormat) (s.conn.leftover ++ data)
  rw [hcut] at hparsed
  have hentry := clientHead_entry (s := s) hm hreq
  have hfits := hentry.inside.todo_le.trans hentry.inside.fits
  rw [hentry.todo_eq, hparsed.eq] at hfits
  rw [hparsed.eq] at hentry
  have hcount := frames_fit hparsed.frames hfits
  obtain ⟨q, hq, hhead⟩ := hentry.passes recvTs envs hparsed.frames (by
    unfold qosHdrLen RECV_BUFFER_LEN at *
    omega)
  exact ⟨q, hq, hhead, hcount⟩

/-- **A client processes the frames and keeps the rest**, when no header overflows. -/
theorem clientLoop_returns (recvTs : UInt32) (hm : s.conn.mode = .client)
    (hreq : data.length ≤ s.conn.recvRequest)
    (hcut : cut qosFormat (s.conn.leftover ++ data) = (fs, rest))
    (hlen : RECV_BUFFER_LEN / qosHdrLen < envs.length) (hno : ¬Overflows rest) :
    ∃ t, afterLoop (passes (parsePass recvTs) envs (parseEntry s data)) = .returned 0 t ∧
      t.conn.mode = .client ∧ t.conn.leftover = rest ∧ t.handed = s.handed ++ fs ∧
        t.conn.qos = processAll recvTs s.conn.qos fs := by
  obtain ⟨q, hq, hhead, hcount⟩ := clientLoop_reaches recvTs hm hreq hcut hlen
  have hrest := (cut_parsed (F := qosFormat) (s.conn.leftover ++ data)).rest
  rw [hcut] at hrest
  have hna : ¬Accepted q.todo := by
    rw [hhead.todo_eq]
    rintro (hc | ho)
    · exact hrest hc
    · exact hno ho
  have hmore : fs.length < envs.length := by
    unfold qosHdrLen RECV_BUFFER_LEN at *
    omega
  rw [hq, List.drop_eq_getElem_cons hmore,
    passes_cons_leave (parsePass_drained hhead.inside hna)]
  exact hhead.finish

/-- A client that comes to a header that overflows leaves the buffer. -/
theorem clientLoop_wild (recvTs : UInt32) (hm : s.conn.mode = .client)
    (hreq : data.length ≤ s.conn.recvRequest)
    (hcut : cut qosFormat (s.conn.leftover ++ data) = (fs, rest))
    (hlen : RECV_BUFFER_LEN / qosHdrLen < envs.length) (ho : Overflows rest) :
    ∃ t f, afterLoop (passes (parsePass recvTs) envs (parseEntry s data)) = .wild t ∧
      t.conn.mode = .client ∧ t.handed = s.handed ++ fs ++ [f] ∧
        qosFormat.frameLen f = qosFormat.frameLen rest := by
  obtain ⟨q, hq, hhead, hcount⟩ := clientLoop_reaches recvTs hm hreq hcut hlen
  have hhdr := ho.1
  have hmore : fs.length + 1 < envs.length := by
    unfold qosHdrLen RECV_BUFFER_LEN at *
    omega
  rw [hq, List.drop_eq_getElem_cons (by omega), List.drop_eq_getElem_cons hmore]
  exact hhead.overflow ho _ _ _

end Nwchecker
