import Nwchecker.Lib.Framing
import Nwchecker.Lib.Machine
import Nwchecker.Nonblock.Server

/-!
# Requests and where the stream is cut

`recvData` takes the complete requests at the front of what it has, and keeps the rest for the next
call. But when it has taken the length of a request whose body is not there yet, the length is not
put back (`decode_spec`), and the next call takes the body for a request.

So the bodies are the right ones as long as no read ends inside a body (`recvData_framing`). After a
read that does, the read that brings what is missing of the body comes to nothing (`cutBody_lost`).
-/

namespace Nwchecker.Nonblock

open Buffers Framing Java Machine Words

def requestFormat : Format UInt8 where
  hdrLen := 4
  hdrLen_pos := Nat.succ_pos 3
  payload := fun hdr => (beWord hdr).toNat

theorem request_frameLen {l : List UInt8} :
    requestFormat.frameLen l = 4 + (beWord l).toNat := by
  show 4 + (beWord (l.take 4)).toNat = _
  rw [beWord_take (Nat.le_refl 4)]

theorem frame_isFrame {body : List UInt8} (h : body.length < 4294967296) :
    requestFormat.IsFrame (frame body) := by
  refine ⟨?_, ?_⟩
  · rw [frame_length]
    exact Nat.le_add_right 4 _
  · rw [request_frameLen, frame_length, frame, beWord_beBytes, UInt32.toNat_ofNat']
    omega

/-- The length at the front is a negative `int`. -/
def Negative (l : List UInt8) : Prop := 4 ≤ l.length ∧ i32 (beWord l).toNat < 0

instance (l : List UInt8) : Decidable (Negative l) := inferInstanceAs (Decidable (_ ∧ _))

/-- What is kept of a rest without a complete request: the length has been taken. -/
def kept (rest : List UInt8) : List UInt8 := if 4 ≤ rest.length then rest.drop 4 else rest

namespace Client

/-! ## The loop of `recvData` -/

/-- A pass in front of a request that is not complete is the last one. -/
theorem decode_incomplete {passes : Nat} {buff : Buffer UInt8}
    (hsmall : buff.remaining < 2147483648) (hc : ¬requestFormat.Complete buff.ahead)
    (hneg : ¬Negative buff.ahead) : ∃ buff', decode (passes + 1) buff = .ok ([], buff') ∧
      buff'.ahead = kept buff.ahead ∧ buff'.capacity = buff.capacity := by
  by_cases hlen : buff.remaining < 4
  · refine ⟨buff, ?_, ?_, rfl⟩
    · rw [decode, if_pos hlen]
    · rw [kept, if_neg (by rw [buff.ahead_length]; omega)]
  · have hahead : 4 ≤ buff.ahead.length := by
      rw [buff.ahead_length]
      omega
    have hw : i32 (beWord (buff.ahead.take 4)).toNat = ((beWord buff.ahead).toNat : Int) := by
      rw [beWord_take (Nat.le_refl 4)]
      exact i32_of_nonneg (UInt32.toNat_lt _) (Int.not_lt.mp (not_and.mp hneg hahead))
    have hlong : ((buff.skip 4).remaining : Int) < (beWord buff.ahead).toNat := by
      have := not_and.mp hc hahead
      rw [request_frameLen, buff.ahead_length] at this
      rw [Buffer.skip_remaining]
      omega
    refine ⟨buff.skip 4, ?_, ?_, Buffer.skip_capacity 4⟩
    · rw [decode, if_neg hlen, getInt, Buffer.get_eq_some (by omega)]
      simp only [Option.map_some, hw]
      rw [if_pos hlong]
    · rw [kept, if_pos hahead, Buffer.skip_ahead]

theorem decode_negative {passes : Nat} {buff : Buffer UInt8} (hneg : Negative buff.ahead) :
    decode (passes + 1) buff = .error .negativeArraySize := by
  obtain ⟨hlen, hw⟩ := hneg
  rw [buff.ahead_length] at hlen
  rw [decode, if_neg (by omega), getInt, Buffer.get_eq_some hlen]
  simp only [Option.map_some, beWord_take (Nat.le_refl 4)]
  rw [if_neg (by omega), if_pos hw]

/-- A pass in front of a complete request takes it. -/
theorem decode_complete {passes : Nat} {buff : Buffer UInt8} (hsmall : buff.remaining < 2147483648)
    (hc : requestFormat.Complete buff.ahead) :
    ∃ buff', buff'.ahead = buff.ahead.drop (requestFormat.frameLen buff.ahead) ∧
      buff'.capacity = buff.capacity ∧ buff'.remaining < buff.remaining ∧
      decode (passes + 1) buff = (decode passes buff').map fun r =>
        ((buff.ahead.take (requestFormat.frameLen buff.ahead)).drop 4 :: r.1, r.2) := by
  obtain ⟨hlen, hle⟩ := hc
  have hlen' : 4 ≤ buff.remaining := by
    rw [← buff.ahead_length]
    exact hlen
  rw [request_frameLen, buff.ahead_length] at hle
  have hw : i32 (beWord (buff.ahead.take 4)).toNat = ((beWord buff.ahead).toNat : Int) := by
    rw [beWord_take (Nat.le_refl 4)]
    exact i32_of_lt (by omega)
  refine ⟨(buff.skip 4).skip (beWord buff.ahead).toNat, ?_, ?_, ?_, ?_⟩
  · rw [Buffer.skip_ahead, Buffer.skip_ahead, List.drop_drop, request_frameLen]
  · rw [Buffer.skip_capacity, Buffer.skip_capacity]
  · rw [Buffer.skip_remaining, Buffer.skip_remaining]
    omega
  · have hrest : (beWord buff.ahead).toNat ≤ (buff.skip 4).remaining := by
      rw [Buffer.skip_remaining]
      omega
    have hbody : (buff.ahead.take (requestFormat.frameLen buff.ahead)).drop 4 =
        (buff.skip 4).ahead.take (beWord buff.ahead).toNat := by
      rw [request_frameLen, Buffer.skip_ahead, List.drop_take, Nat.add_sub_cancel_left]
    rw [decode, if_neg (by omega), getInt, Buffer.get_eq_some hlen']
    simp only [Option.map_some, hw, Int.toNat_natCast]
    rw [if_neg (by omega), if_neg (by omega), Buffer.get_eq_some hrest, hbody]
    simp only
    cases decode passes ((buff.skip 4).skip (beWord buff.ahead).toNat) with
    | error e => rfl
    | ok r => rfl

/--
**What the loop does with the bytes in front of it.**

It prints the complete requests. At a negative length behind them it throws, and otherwise it leaves
what is behind them, without the length if there is one.
-/
theorem decode_spec {passes : Nat} {buff : Buffer UInt8} (hle : buff.remaining ≤ passes)
    (hsmall : buff.remaining < 2147483648) :
    (Negative (cut requestFormat buff.ahead).2 → decode passes buff = .error .negativeArraySize) ∧
      (¬Negative (cut requestFormat buff.ahead).2 → ∃ buff',
        decode passes buff = .ok ((cut requestFormat buff.ahead).1.map (List.drop 4), buff') ∧
          buff'.ahead = kept (cut requestFormat buff.ahead).2 ∧
          buff'.capacity = buff.capacity) := by
  induction passes generalizing buff with
  | zero =>
    have hnil : buff.ahead = [] := by
      rw [← List.length_eq_zero_iff, buff.ahead_length]
      omega
    have hc : ¬requestFormat.Complete buff.ahead := by
      rw [hnil]
      decide
    rw [cut_incomplete hc]
    refine ⟨fun hneg => ?_, fun _ => ⟨buff, rfl, ?_, rfl⟩⟩
    · have := hneg.1
      rw [hnil] at this
      cases this
    · rw [hnil]
      rfl
  | succ passes ih =>
    by_cases hc : requestFormat.Complete buff.ahead
    · obtain ⟨buff', hahead, hcap, hlt, heq⟩ := decode_complete hsmall hc
      obtain ⟨hbad, hgood⟩ := ih (show buff'.remaining ≤ passes by omega) (by omega)
      rw [cut_complete hc, heq]
      rw [hahead] at hbad hgood
      refine ⟨fun hneg => ?_, fun hneg => ?_⟩
      · rw [hbad hneg]
        rfl
      · obtain ⟨buff'', hdec, hkept, hcap'⟩ := hgood hneg
        refine ⟨buff'', ?_, hkept, by rw [hcap', hcap]⟩
        rw [hdec]
        rfl
    · rw [cut_incomplete hc]
      exact ⟨decode_negative, decode_incomplete hsmall hc⟩

/-! ## `recvData` -/

/-- The receive buffer between two calls: what is left is in front of the position. -/
structure RecvReady (c : Client) : Prop where
  limit : c.recvBuff.limit = c.recvBuff.capacity
  capacity : c.recvBuff.capacity = RECV_BUF_LEN

theorem create_recvReady : create.RecvReady where
  limit := List.length_replicate.symm
  capacity := List.length_replicate

variable {c d : Client}

theorem RecvReady.of_same (hc : c.RecvReady) (h : RecvSame c d) : d.RecvReady where
  limit := by
    rw [h.recvBuff]
    exact hc.limit
  capacity := by
    rw [h.recvBuff]
    exact hc.capacity

/-- The bytes in which `recvData` looks for requests after a read of `bytes`. -/
def inHand (c : Client) (bytes : List UInt8) : List UInt8 := c.recvBuff.behind ++ bytes

theorem decodeAll_negative (hc : c.RecvReady) {bytes : List UInt8}
    (hfits : bytes.length ≤ c.recvBuff.remaining)
    (hneg : Negative (cut requestFormat (c.inHand bytes)).2) :
    c.decodeAll bytes = .error .negativeArraySize := by
  obtain ⟨buff, hput, hbehind, -, -, hcap⟩ := Buffer.put_eq_some hfits
  have hsmall : buff.flip.remaining < 2147483648 := by
    have := buff.flip.remaining_le
    rw [Buffer.flip_capacity, hcap, hc.capacity] at this
    unfold RECV_BUF_LEN at this
    omega
  obtain ⟨hbad, -⟩ := decode_spec (Nat.le_refl buff.flip.remaining) hsmall
  rw [Buffer.flip_ahead, hbehind] at hbad
  rw [decodeAll, hput]
  simp only [hbad hneg]

theorem decodeAll_ok (hc : c.RecvReady) {bytes : List UInt8}
    (hfits : bytes.length ≤ c.recvBuff.remaining)
    (hneg : ¬Negative (cut requestFormat (c.inHand bytes)).2) :
    ∃ buff, c.decodeAll bytes = .ok (0,
        { c with
          recvBuff := buff
          received := c.received ++ bytes
          bodies := c.bodies ++ (cut requestFormat (c.inHand bytes)).1.map (List.drop 4) }) ∧
      buff.behind = kept (cut requestFormat (c.inHand bytes)).2 ∧
      buff.limit = buff.capacity ∧ buff.capacity = RECV_BUF_LEN := by
  obtain ⟨buff, hput, hbehind, -, -, hcap⟩ := Buffer.put_eq_some hfits
  have hsmall : buff.flip.remaining < 2147483648 := by
    have := buff.flip.remaining_le
    rw [Buffer.flip_capacity, hcap, hc.capacity] at this
    unfold RECV_BUF_LEN at this
    omega
  obtain ⟨-, hgood⟩ := decode_spec (Nat.le_refl buff.flip.remaining) hsmall
  rw [Buffer.flip_ahead, hbehind] at hgood
  obtain ⟨buff', hdec, hkept, hcap'⟩ := hgood hneg
  refine ⟨buff'.compact, ?_, ?_, ?_, ?_⟩
  · rw [decodeAll, hput]
    simp only [hdec]
    rfl
  · rw [Buffer.compact_behind, hkept]
    rfl
  · rw [Buffer.compact_limit, Buffer.compact_capacity]
  · rw [Buffer.compact_capacity, hcap', Buffer.flip_capacity, hcap, hc.capacity]

/-- A body whose length has been taken is not found by the read that brings the rest of it. -/
theorem cutBody_lost (hc : c.RecvReady) {bytes : List UInt8}
    (hfits : bytes.length ≤ c.recvBuff.remaining) {rc : Int}
    (h : c.decodeAll bytes = .ok (rc, d)) : d.bodies ≠ c.bodies ++ [c.inHand bytes] := by
  intro hbodies
  by_cases hneg : Negative (cut requestFormat (c.inHand bytes)).2
  · rw [decodeAll_negative hc hfits hneg] at h
    cases h
  · obtain ⟨buff, heq, -⟩ := decodeAll_ok hc hfits hneg
    rw [heq] at h
    cases h
    have hparsed := cut_parsed (F := requestFormat) (c.inHand bytes)
    generalize (cut requestFormat (c.inHand bytes)).1 = fs at hparsed hbodies
    -- the request would be longer than what there is
    obtain ⟨f, rfl⟩ : ∃ f, fs = [f] := by
      rw [← List.length_eq_one_iff]
      simpa using congrArg List.length (List.append_cancel_left hbodies)
    have hlen := congrArg List.length hparsed.eq
    have hbody := congrArg (fun l => l.flatten.length) (List.append_cancel_left hbodies)
    have hframe := (hparsed.frames f List.mem_cons_self).1
    have : requestFormat.hdrLen = 4 := rfl
    simp only [List.flatten_cons, List.flatten_nil, List.append_nil, List.map_cons, List.map_nil,
      List.length_append, List.length_drop] at hlen hbody
    omega

/-! ## The branch of `process` for a readable key -/

variable {L : Nat}

theorem onReadable_ends (hvalid : c.sk.valid = true) {r : ReadResult}
    (hr : r = .endOfStream ∨ r = .failed) (resp : List UInt8) (w : WriteResult) :
    c.onReadable r resp w = .ok (-1, c.closed) := by
  rcases hr with rfl | rfl
  · simp [onReadable, recvData, close_valid hvalid]
  · simp [onReadable, recvData, close_valid hvalid]

/-- When there is nothing to be read, `sendData` is called all the same. -/
theorem onReadable_nothing (hs : c.SendReady L) (hvalid : c.sk.valid = true) {resp : List UInt8}
    (hresp : resp.length = L) (w : WriteResult) :
    ∃ d, c.onReadable (.data []) resp w = .ok (0, d) ∧ d.SendReady L ∧ RecvSame c d ∧
      d.sk.valid = true ∧
      d.responses = if c.canSend then c.responses ++ [resp] else c.responses := by
  obtain ⟨d, hd, hrest⟩ := sendData_ready hs hvalid hresp w
  refine ⟨d, ?_, hrest⟩
  simp [onReadable, recvData, hd]

theorem onReadable_negative (hr : c.RecvReady) {bytes : List UInt8} (hnil : bytes ≠ [])
    (hfits : bytes.length ≤ c.recvBuff.remaining)
    (hneg : Negative (cut requestFormat (c.inHand bytes)).2) (resp : List UInt8)
    (w : WriteResult) : c.onReadable (.data bytes) resp w = .error .negativeArraySize := by
  simp [onReadable, recvData, hnil, decodeAll_negative hr hfits hneg]

theorem onReadable_data (hr : c.RecvReady) (hs : c.SendReady L) (hvalid : c.sk.valid = true)
    {bytes : List UInt8} (hnil : bytes ≠ []) (hfits : bytes.length ≤ c.recvBuff.remaining)
    (hneg : ¬Negative (cut requestFormat (c.inHand bytes)).2) {resp : List UInt8}
    (hresp : resp.length = L) (w : WriteResult) :
    ∃ d, c.onReadable (.data bytes) resp w = .ok (0, d) ∧ d.RecvReady ∧ d.SendReady L ∧
      d.sk.valid = true ∧
      d.responses = (if c.canSend then c.responses ++ [resp] else c.responses) ∧
      d.received = c.received ++ bytes ∧
      d.bodies = c.bodies ++ (cut requestFormat (c.inHand bytes)).1.map (List.drop 4) ∧
      d.recvBuff.behind = kept (cut requestFormat (c.inHand bytes)).2 := by
  obtain ⟨buff, hdec, hbehind, hlimit, hcap⟩ := decodeAll_ok hr hfits hneg
  have hs' : SendReady L { c with
      recvBuff := buff
      received := c.received ++ bytes
      bodies := c.bodies ++ (cut requestFormat (c.inHand bytes)).1.map (List.drop 4) } :=
    ⟨hs.limit, hs.start⟩
  obtain ⟨d, hd, hready, hsame, hvalid', hresp'⟩ := sendData_ready hs' hvalid hresp w
  refine ⟨d, ?_, RecvReady.of_same ⟨hlimit, hcap⟩ hsame, hready, hvalid', hresp', hsame.received,
    hsame.bodies, ?_⟩
  · simp [onReadable, recvData, hnil, hdec, hd]
  · rw [hsame.recvBuff]
    exact hbehind

/-! ## One event -/

/-- The bytes that the event reads. -/
def Event.data : Event L → List UInt8
  | .readable (.data bytes) _ _ => bytes
  | _ => []

/-- The text of the response, should the event begin one. -/
def Event.text : Event L → List UInt8
  | .readable _ resp _ | .writable resp _ => resp.text

/-- `process` calls `sendData`. -/
def Event.sends : Event L → Bool
  | .readable (.data _) _ _ | .writable _ _ => true
  | .readable _ _ _ => false

/-- The responses after the event. -/
def responsesAfter (c : Client) (e : Event L) : List (List UInt8) :=
  if c.canSend && e.sends then c.responses ++ [e.text] else c.responses

/--
**What an event does.**

Without new bytes nothing is received. With new bytes, `recvData` takes the complete requests, or
throws at a negative length behind them.
-/
theorem handle_spec (hr : c.RecvReady) (hs : c.SendReady L) {e : Event L} (he : c.Reports e) :
    (e.data = [] ∧ ∃ d, c.handle e = .ok d ∧ RecvSame c d ∧ d.SendReady L ∧
        d.responses = c.responsesAfter e) ∨
      (e.data ≠ [] ∧ Negative (cut requestFormat (c.inHand e.data)).2 ∧
        c.handle e = .error .negativeArraySize) ∨
      (e.data ≠ [] ∧ ¬Negative (cut requestFormat (c.inHand e.data)).2 ∧
        ∃ d, c.handle e = .ok d ∧ d.RecvReady ∧ d.SendReady L ∧
          d.responses = c.responsesAfter e ∧ d.received = c.received ++ e.data ∧
          d.bodies = c.bodies ++ (cut requestFormat (c.inHand e.data)).1.map (List.drop 4) ∧
          d.recvBuff.behind = kept (cut requestFormat (c.inHand e.data)).2) := by
  cases e with
  | readable r resp w =>
    obtain ⟨hvalid, -, htakes⟩ := he
    cases r with
    | data bytes =>
      by_cases hnil : bytes = []
      · subst hnil
        obtain ⟨d, hd, hready, hsame, -, hresp⟩ := onReadable_nothing hs hvalid resp.size w
        refine Or.inl ⟨rfl, d, ?_, hsame, hready, ?_⟩
        · rw [handle, hd]
          rfl
        · rw [hresp]
          simp [responsesAfter, Event.sends, Event.text]
      · by_cases hneg : Negative (cut requestFormat (c.inHand bytes)).2
        · refine Or.inr (Or.inl ⟨hnil, hneg, ?_⟩)
          rw [handle, onReadable_negative hr hnil htakes hneg]
          rfl
        · obtain ⟨d, hd, hready, hready', -, hresp, hreceived, hbodies, hbehind⟩ :=
            onReadable_data hr hs hvalid hnil htakes hneg resp.size w
          refine Or.inr (Or.inr ⟨hnil, hneg, d, ?_, hready, hready', ?_, hreceived, hbodies,
            hbehind⟩)
          · rw [handle, hd]
            rfl
          · rw [hresp]
            simp [responsesAfter, Event.sends, Event.text]
    | endOfStream =>
      refine Or.inl ⟨rfl, c.closed, ?_, ⟨rfl, rfl, rfl⟩, ⟨hs.limit, hs.start⟩, ?_⟩
      · rw [handle, onReadable_ends hvalid (Or.inl rfl)]
        rfl
      · simp [responsesAfter, Event.sends, closed]
    | failed =>
      refine Or.inl ⟨rfl, c.closed, ?_, ⟨rfl, rfl, rfl⟩, ⟨hs.limit, hs.start⟩, ?_⟩
      · rw [handle, onReadable_ends hvalid (Or.inr rfl)]
        rfl
      · simp [responsesAfter, Event.sends, closed]
  | writable resp w =>
    obtain ⟨hvalid, -⟩ := he
    have hs' : SendReady L { c with sk := { c.sk with ops := c.sk.ops.cancel OP_WRITE } } :=
      ⟨hs.limit, hs.start⟩
    obtain ⟨d, hd, hready, hsame, -, hresp⟩ := sendData_ready hs' hvalid resp.size w
    refine Or.inl ⟨rfl, d, ?_, ⟨hsame.recvBuff, hsame.received, hsame.bodies⟩, hready, ?_⟩
    · simp only [handle, onWritable, cancelEvent, updateOps_valid hvalid]
      exact hd
    · rw [hresp]
      simp [responsesAfter, Event.sends, Event.text]

end Client

/-! ## A stream of requests -/

/-- The requests that lie within the first `n` bytes of the stream. -/
def completed : List (List UInt8) → Nat → List (List UInt8)
  | [], _ => []
  | body :: bodies, n =>
    if 4 + body.length ≤ n then body :: completed bodies (n - (4 + body.length)) else []

/-- The first `n` bytes of the stream end inside a body, its length being there. -/
def InsideBody : List (List UInt8) → Nat → Prop
  | [], _ => False
  | body :: bodies, n =>
    if 4 + body.length ≤ n then InsideBody bodies (n - (4 + body.length)) else 4 ≤ n

instance decidableInsideBody : ∀ bodies n, Decidable (InsideBody bodies n)
  | [], _ => inferInstanceAs (Decidable False)
  | body :: bodies, n =>
    have := decidableInsideBody bodies (n - (4 + body.length))
    inferInstanceAs (Decidable
      (if 4 + body.length ≤ n then InsideBody bodies (n - (4 + body.length)) else 4 ≤ n))

theorem completed_eq (bodies : List (List UInt8)) (n : Nat) :
    completed bodies n = (fullyReceived (bodies.map frame) n).map (List.drop 4) := by
  induction bodies generalizing n with
  | nil => rfl
  | cons body bodies ih =>
    rw [completed, List.map_cons, fullyReceived, frame_length]
    split
    · rw [List.map_cons, frame_drop, ih]
    · rfl

theorem insideBody_iff {bodies : List (List UInt8)} {n : Nat}
    (hn : n ≤ (bodies.map frame).flatten.length) :
    InsideBody bodies n ↔ 4 ≤ n - (fullyReceived (bodies.map frame) n).flatten.length := by
  induction bodies generalizing n with
  | nil =>
    have hzero : n = 0 := by simpa using hn
    simp [InsideBody, hzero]
  | cons body bodies ih =>
    rw [List.map_cons, List.flatten_cons, List.length_append, frame_length] at hn
    rw [InsideBody, List.map_cons, fullyReceived, frame_length]
    split
    · rw [ih (by omega), List.flatten_cons, List.length_append, frame_length,
        Nat.sub_sub]
    · simp

/-- What the complete requests are, and whether there is a length behind them. -/
theorem parsed_stream {bodies : List (List UInt8)} (hbodies : ∀ b ∈ bodies, b.length ≤ 1020)
    {got r : List UInt8} {hs : List (List UInt8)} (hgot : got <+: (bodies.map frame).flatten)
    (h : Parsed requestFormat got hs r) : hs.map (List.drop 4) = completed bodies got.length ∧
      (InsideBody bodies got.length ↔ 4 ≤ r.length) := by
  have hframes : ∀ f ∈ bodies.map frame, requestFormat.IsFrame f := by
    intro f hf
    obtain ⟨b, hb, rfl⟩ := List.mem_map.mp hf
    have := hbodies b hb
    exact frame_isFrame (by omega)
  have hfull := h.eq_fullyReceived hframes hgot
  refine ⟨by rw [completed_eq, hfull], ?_⟩
  rw [insideBody_iff hgot.length_le, ← hfull]
  have hlen := congrArg List.length h.eq
  rw [List.length_append] at hlen
  rw [hlen, Nat.add_sub_cancel_left]

namespace Client

variable {L : Nat} {c d : Client}

/-- Everything that a list of events reads. -/
def arrived (events : List (Event L)) : List UInt8 := events.flatMap Event.data

/-- The client has decoded what has arrived, up to a rest that is shorter than a length. -/
structure KeptUp (L : Nat) (c : Client) : Prop where
  recvReady : c.RecvReady
  sendReady : c.SendReady L
  parsed : ∃ fs, Parsed requestFormat c.received fs c.recvBuff.behind ∧
    c.bodies = fs.map (List.drop 4)
  short : c.recvBuff.behind.length < 4

theorem create_keptUp (hL : L + 4 ≤ SEND_BUFF_LEN) : create.KeptUp L where
  recvReady := create_recvReady
  sendReady := create_sendReady hL
  parsed := ⟨[], parsed_nil (by decide), rfl⟩
  short := by decide

/-- The requests in hand, and the ones before them. -/
theorem KeptUp.parsed_append (hc : c.KeptUp L) (bytes : List UInt8) : ∃ fs,
    Parsed requestFormat (c.received ++ bytes) fs (cut requestFormat (c.inHand bytes)).2 ∧
      c.bodies ++ (cut requestFormat (c.inHand bytes)).1.map (List.drop 4) =
        fs.map (List.drop 4) := by
  obtain ⟨fs, hparsed, hbodies⟩ := hc.parsed
  have hcut := cut_parsed (F := requestFormat) (c.inHand bytes)
  refine ⟨fs ++ (cut requestFormat (c.inHand bytes)).1, ?_, ?_⟩
  · refine { eq := ?_, frames := ?_, rest := hcut.rest }
    · rw [List.flatten_append, List.append_assoc, ← hcut.eq, inHand, ← List.append_assoc,
        ← hparsed.eq]
    · intro f hf
      rcases List.mem_append.mp hf with hf | hf
      · exact hparsed.frames f hf
      · exact hcut.frames f hf
  · rw [List.map_append, hbodies]

/-- A read that does not end inside a body. -/
theorem KeptUp.handle (hc : c.KeptUp L) {e : Event L} (he : c.Reports e)
    {bodies : List (List UInt8)} (hbodies : ∀ b ∈ bodies, b.length ≤ 1020)
    (hstream : c.received ++ e.data <+: (bodies.map frame).flatten)
    (hcut : ¬InsideBody bodies (c.received ++ e.data).length) :
    ∃ d, c.handle e = .ok d ∧ d.KeptUp L ∧ d.received = c.received ++ e.data := by
  obtain ⟨fs, hparsed, hfs⟩ := hc.parsed_append e.data
  have hshort : (cut requestFormat (c.inHand e.data)).2.length < 4 := by
    rw [(parsed_stream hbodies hstream hparsed).2] at hcut
    omega
  rcases handle_spec hc.recvReady hc.sendReady he with
    ⟨hnil, d, hd, hsame, hready, -⟩ | ⟨-, hneg, -⟩ |
      ⟨-, -, d, hd, hready, hready', -, hreceived, hdbodies, hbehind⟩
  · refine ⟨d, hd, ?_, ?_⟩
    · refine
        { recvReady := hc.recvReady.of_same hsame, sendReady := hready, parsed := ?_, short := ?_ }
      · rw [hsame.received, hsame.recvBuff, hsame.bodies]
        exact hc.parsed
      · rw [hsame.recvBuff]
        exact hc.short
    · rw [hsame.received, hnil, List.append_nil]
  · have := hneg.1
    omega
  · rw [kept, if_neg (by omega)] at hbehind
    refine ⟨d, hd, ?_, hreceived⟩
    refine { recvReady := hready, sendReady := hready', parsed := ⟨fs, ?_, ?_⟩, short := ?_ }
    · rw [hreceived, hbehind]
      exact hparsed
    · rw [hdbodies, hfs]
    · rw [hbehind]
      exact hshort

/-- Any number of reads none of which ends inside a body. -/
theorem keptUp_run (hL : L + 4 ≤ SEND_BUFF_LEN) {bodies : List (List UInt8)}
    (hbodies : ∀ b ∈ bodies, b.length ≤ 1020) {events : List (Event L)}
    {t : Except RuntimeException Client} (hrun : replay step (.ok create) events = some t)
    (hstream : arrived events <+: (bodies.map frame).flatten)
    (hcuts : ∀ ds, ds <+: events → ¬InsideBody bodies (arrived ds).length) :
    ∃ c, t = .ok c ∧ c.KeptUp L ∧ c.received = arrived events := by
  induction events using List.reverseRecOn generalizing t with
  | nil =>
    cases hrun
    exact ⟨create, rfl, create_keptUp hL, rfl⟩
  | append_singleton events e ih =>
    have hall : arrived (events ++ [e]) = arrived events ++ e.data := by
      simp [arrived]
    obtain ⟨u, hu, hstep⟩ := replay_concat.mp hrun
    have hprefix : events <+: events ++ [e] := List.prefix_append events [e]
    rw [hall] at hstream
    obtain ⟨c, rfl, hc, hreceived⟩ := ih hu ((List.prefix_append _ _).trans hstream)
      fun ds hds => hcuts ds (hds.trans hprefix)
    have hlast := hcuts (events ++ [e]) List.prefix_rfl
    rw [hall, ← hreceived] at hlast
    rw [← hreceived] at hstream
    simp only [step] at hstep
    split at hstep
    · next he =>
      obtain ⟨d, hd, hkept, hreceived'⟩ := hc.handle he hbodies hstream hlast
      rw [hd] at hstep
      cases hstep
      exact ⟨d, rfl, hkept, by rw [hreceived', hall, hreceived]⟩
    · cases hstep

/--
**When framing does not depend on segmentation.**

The stream is a sequence of requests, and no read ends inside a body. Then after every call the
bodies that `recvData` has printed are those of the requests that have arrived in full, in order.
-/
theorem recvData_framing (hL : L + 4 ≤ SEND_BUFF_LEN) (bodies : List (List UInt8))
    (hbodies : ∀ b ∈ bodies, b.length ≤ 1020) (events : List (Event L))
    (hstream : arrived events <+: (bodies.map frame).flatten)
    (hcuts : ∀ ds, ds <+: events → ¬InsideBody bodies (arrived ds).length)
    (t : Except RuntimeException Client) (hrun : replay step (.ok create) events = some t) :
    ∃ c, t = .ok c ∧ c.received = arrived events ∧
      c.bodies = completed bodies (arrived events).length := by
  obtain ⟨c, rfl, hc, hreceived⟩ := keptUp_run hL hbodies hrun hstream hcuts
  obtain ⟨fs, hparsed, hfs⟩ := hc.parsed
  refine ⟨c, rfl, hreceived, ?_⟩
  rw [← hreceived] at hstream ⊢
  rw [hfs, (parsed_stream hbodies hstream hparsed).1]

/-- A response of `L` spaces. -/
def Response.blank (L : Nat) : Response L where
  text := List.replicate L 32
  size := List.length_replicate

/-- A read that is answered in full. -/
def Event.reads (bytes : List UInt8) : Event 37 :=
  .readable (.data bytes) (Response.blank 37) (.room 1024)

/-- The second request is cut in its length. -/
theorem cutInLength_framing : ∃ c,
    replay step (.ok create) [Event.reads [0, 0, 0, 1, 65, 0, 0], Event.reads [0, 2, 66, 67]] =
      some (.ok c) ∧ c.bodies = [[65], [66, 67]] := by
  have hsome : (replay step (.ok create)
      [Event.reads [0, 0, 0, 1, 65, 0, 0], Event.reads [0, 2, 66, 67]]).isSome := by
    decide +kernel
  obtain ⟨t, ht⟩ := Option.isSome_iff_exists.mp hsome
  have hcuts : ∀ ds, ds <+: [Event.reads [0, 0, 0, 1, 65, 0, 0], Event.reads [0, 2, 66, 67]] →
      ¬InsideBody [[65], [66, 67]] (arrived ds).length := by
    have hinits : ∀ ds ∈ [Event.reads [0, 0, 0, 1, 65, 0, 0], Event.reads [0, 2, 66, 67]].inits,
        ¬InsideBody [[65], [66, 67]] (arrived ds).length := by decide
    exact fun ds hds => hinits ds ((List.mem_inits _ _).mpr hds)
  obtain ⟨c, rfl, -, hbodies⟩ := recvData_framing (by decide) [[65], [66, 67]] (by decide) _
    (by decide) hcuts t ht
  exact ⟨c, ht, hbodies⟩

/-- A body that comes after its length is not decoded. -/
theorem cutInBody_lost :
    arrived [Event.reads [0, 0, 0, 1], Event.reads [65]] = ([[65]].map frame).flatten ∧
      ∃ c, replay step (.ok create) [Event.reads [0, 0, 0, 1], Event.reads [65]] = some (.ok c) ∧
        c.bodies ≠ completed [[65]] c.received.length := by
  obtain ⟨t, ht, hbodies⟩ : ∃ t ∈ replay step (.ok create)
      [Event.reads [0, 0, 0, 1], Event.reads [65]], ∃ c ∈ t.toOption,
        c.bodies ≠ completed [[65]] c.received.length := by
    decide +kernel
  obtain ⟨c, hc, hne⟩ := hbodies
  cases t with
  | error e => cases hc
  | ok d =>
    cases hc
    exact ⟨by decide, _, ht, hne⟩

end Client

end Nwchecker.Nonblock
