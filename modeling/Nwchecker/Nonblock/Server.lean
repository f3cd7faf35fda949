import Nwchecker.Java.Selection

/-!
# The non-blocking server

`NonblockTCPServer.java`: `Client` with its two buffers, and what the loop of `process` does for one
key. The date is a parameter. All dates that the server formats have one length, and so have its
responses: `L`.

The fields `received`, `bodies`, `responses` and `written` record what has happened.
-/

namespace Nwchecker.Nonblock

open Buffers Java Words

def RECV_BUF_LEN : Nat := 1024
def SEND_BUFF_LEN : Nat := 1024

/-- What `read` of a channel comes to. Nothing to be read is no bytes. -/
inductive ReadResult where
  | data (bytes : List UInt8)
  | endOfStream
  /-- An `IOException`. -/
  | failed
  deriving DecidableEq, Repr

/-- What `write` of a channel comes to. -/
inductive WriteResult where
  /-- The channel takes no more than `n` bytes. -/
  | room (n : Nat)
  /-- An `IOException`. -/
  | failed
  deriving DecidableEq, Repr

/-- `NonblockTCPServer.Client`. The channel is open as long as its key is valid. -/
structure Client where
  recvBuff : Buffer UInt8
  sendBuff : Buffer UInt8
  sk : SelectionKey
  canSend : Bool
  /-- What `read` has returned. -/
  received : List UInt8
  /-- The bodies that `recvData` has printed. -/
  bodies : List (List UInt8)
  /-- The responses that `sendData` has put into the buffer. -/
  responses : List (List UInt8)
  /-- What `write` has taken. -/
  written : List UInt8
  deriving DecidableEq, Repr

namespace Client

/-- The constructor. -/
def create : Client where
  recvBuff := Buffer.allocate RECV_BUF_LEN 0
  sendBuff := Buffer.allocate SEND_BUFF_LEN 0
  sk := { valid := true, ops := OP_READ }
  canSend := true
  received := []
  bodies := []
  responses := []
  written := []

/-- `sk_.interestOps(f(sk_.interestOps()))` -/
def updateOps (c : Client) (f : Ops → Ops) : Except RuntimeException Client :=
  match c.sk.interestOps with
  | .error e => .error e
  | .ok ops =>
    match c.sk.setInterestOps (f ops) with
    | .error e => .error e
    | .ok sk => .ok { c with sk := sk }

def register (c : Client) (op : Ops) : Except RuntimeException Client := c.updateOps op.add

def cancelEvent (c : Client) (ops : Ops) : Except RuntimeException Client :=
  c.updateOps fun interest => interest.cancel ops

/-- `close`. A channel that is closed cancels its key. -/
def close (c : Client) : Except RuntimeException Client :=
  match c.cancelEvent (OP_WRITE.add OP_READ) with
  | .error e => .error e
  | .ok c => .ok { c with sk := c.sk.cancel }

/-! ## Sending -/

/-- `sendData` from `write` on. -/
def writeBuff (c : Client) (totalSendBytes : Nat) : WriteResult → Except RuntimeException Client
  | .failed => .ok c
  | .room n =>
    let sbytes := min n c.sendBuff.remaining
    let c :=
      { c with
        sendBuff := c.sendBuff.skip sbytes
        written := c.written ++ c.sendBuff.ahead.take sbytes }
    if sbytes < totalSendBytes then
      match c.register OP_WRITE with
      | .error e => .error e
      | .ok c => .ok { c with canSend := false }
    else .ok { c with canSend := true, sendBuff := c.sendBuff.rewind }

/-- `sendData`, in which `resp` is the text. -/
def sendData (c : Client) (resp : List UInt8) (w : WriteResult) : Except RuntimeException Client :=
  if c.canSend then
    match putInt c.sendBuff (UInt32.ofNat resp.length) with
    | none => .error .bufferOverflow
    | some buff =>
      match buff.put resp with
      | none => .error .bufferOverflow
      | some buff =>
        { c with sendBuff := buff.flip, responses := c.responses ++ [resp] }.writeBuff
          (resp.length + 4) w
  else c.writeBuff c.sendBuff.remaining w

/-! ## Receiving -/

/--
The `while` loop of `recvData`: the bodies that it prints, and the buffer behind it.

Each pass that goes round takes four bytes at least, so that there are never more passes than bytes.
-/
def decode : Nat → Buffer UInt8 → Except RuntimeException (List (List UInt8) × Buffer UInt8)
  | 0, buff => .ok ([], buff)
  | passes + 1, buff =>
    if buff.remaining < 4 then .ok ([], buff)
    else
      match getInt buff with
      | none => .error .bufferUnderflow
      | some (bodyLen, buff) =>
        if bodyLen > buff.remaining then .ok ([], buff)
        else if bodyLen < 0 then .error .negativeArraySize
        else
          match buff.get bodyLen.toNat with
          | none => .error .bufferUnderflow
          | some (body, buff) =>
            match decode passes buff with
            | .error e => .error e
            | .ok (bodies, buff) => .ok (body :: bodies, buff)

/-- `recvData` after `read` has put `bytes` into the buffer. -/
def decodeAll (c : Client) (bytes : List UInt8) : Except RuntimeException (Int × Client) :=
  match c.recvBuff.put bytes with
  | none => .error .bufferOverflow
  | some buff =>
    match decode buff.flip.remaining buff.flip with
    | .error e => .error e
    | .ok (bodies, buff) =>
      .ok (0,
        { c with
          recvBuff := buff.compact
          received := c.received ++ bytes
          bodies := c.bodies ++ bodies })

/-- `recvData` -/
def recvData (c : Client) : ReadResult → Except RuntimeException (Int × Client)
  | .data bytes => if bytes = [] then .ok (0, c) else c.decodeAll bytes
  | .endOfStream | .failed =>
    match c.close with
    | .error e => .error e
    | .ok c => .ok (-1, c)

/-! ## The branches of `process` -/

/-- `key.isReadable()`: what `recvData` returns, and the client after the branch. -/
def onReadable (c : Client) (r : ReadResult) (resp : List UInt8) (w : WriteResult) :
    Except RuntimeException (Int × Client) :=
  match c.recvData r with
  | .error e => .error e
  | .ok (rc, c) =>
    if rc = 0 then
      match c.sendData resp w with
      | .error e => .error e
      | .ok c => .ok (rc, c)
    else .ok (rc, c)

/-- `key.isWritable()` -/
def onWritable (c : Client) (resp : List UInt8) (w : WriteResult) :
    Except RuntimeException Client :=
  match c.cancelEvent OP_WRITE with
  | .error e => .error e
  | .ok c => c.sendData resp w

/-! ## The machine of one connection -/

/-- A text of the length that they all have. -/
structure Response (L : Nat) where
  text : List UInt8
  size : text.length = L
  deriving DecidableEq, Repr

/-- A turn of the loop of `process` for the key of the connection. -/
inductive Event (L : Nat) where
  | readable (r : ReadResult) (resp : Response L) (w : WriteResult)
  | writable (resp : Response L) (w : WriteResult)
  deriving DecidableEq, Repr

variable {L : Nat}

/-- `read` returns no more than there is room for. -/
def Takes (c : Client) : ReadResult → Prop
  | .data bytes => bytes.length ≤ c.recvBuff.remaining
  | .endOfStream | .failed => True

instance (c : Client) : ∀ r, Decidable (c.Takes r)
  | .data bytes => inferInstanceAs (Decidable (bytes.length ≤ _))
  | .endOfStream | .failed => inferInstanceAs (Decidable True)

/-- The selector reports what is in the interest set of a valid key. -/
def Reports (c : Client) : Event L → Prop
  | .readable r _ _ => c.sk.valid = true ∧ c.sk.ops.read = true ∧ c.Takes r
  | .writable _ _ => c.sk.valid = true ∧ c.sk.ops.write = true

instance (c : Client) : ∀ e : Event L, Decidable (c.Reports e)
  | .readable _ _ _ => inferInstanceAs (Decidable (_ ∧ _ ∧ _))
  | .writable _ _ => inferInstanceAs (Decidable (_ ∧ _))

def handle (c : Client) : Event L → Except RuntimeException Client
  | .readable r resp w => (c.onReadable r resp.text w).map Prod.snd
  | .writable resp w => c.onWritable resp.text w

/-- An exception leaves `process`, and no event follows it. -/
def step : Except RuntimeException Client → Event L → Option (Except RuntimeException Client)
  | .error _, _ => none
  | .ok c, e => if c.Reports e then some (c.handle e) else none

/-! ## What the methods do while the channel is open -/

variable {c d : Client}

theorem updateOps_valid (h : c.sk.valid = true) (f : Ops → Ops) :
    c.updateOps f = .ok { c with sk := { c.sk with ops := f c.sk.ops } } := by
  simp only [updateOps, SelectionKey.interestOps_valid h, SelectionKey.setInterestOps_valid h]

/-- The client behind `close`. -/
def closed (c : Client) : Client :=
  { c with sk := ⟨false, c.sk.ops.cancel (OP_WRITE.add OP_READ)⟩ }

theorem close_valid (h : c.sk.valid = true) : c.close = .ok c.closed := by
  simp [close, cancelEvent, updateOps_valid h, SelectionKey.cancel, closed]

/-- There is room for a response, from the start of the buffer on unless one is under way. -/
structure SendReady (L : Nat) (c : Client) : Prop where
  limit : L + 4 ≤ c.sendBuff.limit
  start : c.canSend = true → c.sendBuff.position = 0

theorem create_sendReady (hL : L + 4 ≤ SEND_BUFF_LEN) : create.SendReady L where
  limit := hL
  start := fun _ => rfl

/-- `d` has received what `c` has. -/
structure RecvSame (c d : Client) : Prop where
  recvBuff : d.recvBuff = c.recvBuff
  received : d.received = c.received
  bodies : d.bodies = c.bodies

/-- The client in front of `write`: a response is in the buffer, the last one or a new one. -/
structure Loaded (c : Client) (resp : List UInt8) (d : Client) : Prop where
  same : d = { c with sendBuff := d.sendBuff, responses := d.responses }
  ahead : d.sendBuff.ahead = if c.canSend then frame resp else c.sendBuff.ahead
  responses : d.responses = if c.canSend then c.responses ++ [resp] else c.responses

theorem Loaded.sk {resp : List UInt8} (h : Loaded c resp d) : d.sk = c.sk := by
  rw [h.same]

theorem Loaded.canSend {resp : List UInt8} (h : Loaded c resp d) : d.canSend = c.canSend := by
  rw [h.same]

theorem Loaded.written {resp : List UInt8} (h : Loaded c resp d) : d.written = c.written := by
  rw [h.same]

theorem Loaded.recvSame {resp : List UInt8} (h : Loaded c resp d) : RecvSame c d where
  recvBuff := by rw [h.same]
  received := by rw [h.same]
  bodies := by rw [h.same]

/-- A new response fits in the buffer, and what is written is always the rest of a response. -/
theorem sendData_eq {L : Nat} (hc : c.SendReady L) {resp : List UInt8} (hresp : resp.length = L)
    (w : WriteResult) : ∃ d, Loaded c resp d ∧ d.SendReady L ∧
      c.sendData resp w = d.writeBuff d.sendBuff.remaining w := by
  by_cases hcan : c.canSend = true
  · have hpos := hc.start hcan
    have hlimit := hc.limit
    have hroom : c.sendBuff.remaining = c.sendBuff.limit := by
      rw [Buffer.remaining, hpos, Nat.sub_zero]
    obtain ⟨buff, hbuff, hbehind, hposition, hlim, -⟩ :=
      Buffer.put_eq_some (b := c.sendBuff) (l := beBytes (UInt32.ofNat resp.length))
        (by rw [beBytes_length]; omega)
    rw [beBytes_length, hpos, Nat.zero_add] at hposition
    rw [Buffer.behind_of_start hpos, List.nil_append] at hbehind
    obtain ⟨buff', hbuff', hbehind', hposition', -, -⟩ :=
      Buffer.put_eq_some (b := buff) (l := resp)
        (by rw [Buffer.remaining, hlim, hposition]; omega)
    rw [hbehind] at hbehind'
    rw [hposition, hresp] at hposition'
    refine ⟨{ c with sendBuff := buff'.flip, responses := c.responses ++ [resp] }, ?_, ?_, ?_⟩
    · refine { same := rfl, ahead := ?_, responses := ?_ }
      · rw [if_pos hcan]
        exact hbehind'
      · rw [if_pos hcan]
    · refine { limit := ?_, start := fun _ => rfl }
      show L + 4 ≤ buff'.position
      omega
    · have htotal : resp.length + 4 = buff'.flip.remaining := by
        rw [Buffer.flip_remaining]
        omega
      simp only [sendData, hcan, putInt, hbuff, hbuff', htotal, if_true]
  · refine ⟨c, ?_, hc, ?_⟩
    · exact { same := rfl, ahead := (if_neg hcan).symm, responses := (if_neg hcan).symm }
    · simp only [sendData, if_neg hcan]

theorem writeBuff_short (hvalid : d.sk.valid = true) {n : Nat} (hn : n < d.sendBuff.remaining) :
    d.writeBuff d.sendBuff.remaining (.room n) = .ok
      { d with
        sendBuff := d.sendBuff.skip n
        written := d.written ++ d.sendBuff.ahead.take n
        sk := { d.sk with ops := OP_WRITE.add d.sk.ops }
        canSend := false } := by
  have hmin : min n d.sendBuff.remaining = n := Nat.min_eq_left (Nat.le_of_lt hn)
  simp only [writeBuff, hmin, if_pos hn, register]
  rw [updateOps_valid (by exact hvalid)]

theorem writeBuff_full {n : Nat} (hn : d.sendBuff.remaining ≤ n) :
    d.writeBuff d.sendBuff.remaining (.room n) = .ok
      { d with
        sendBuff := (d.sendBuff.skip d.sendBuff.remaining).rewind
        written := d.written ++ d.sendBuff.ahead
        canSend := true } := by
  have hmin : min n d.sendBuff.remaining = d.sendBuff.remaining := Nat.min_eq_right hn
  have hall : d.sendBuff.ahead.take d.sendBuff.remaining = d.sendBuff.ahead :=
    List.take_of_length_le (Nat.le_of_eq d.sendBuff.ahead_length)
  simp only [writeBuff, hmin, if_neg (Nat.lt_irrefl _), hall]

/-- While the channel is open `sendData` throws nothing, whatever `write` does. -/
theorem sendData_ready {L : Nat} (hc : c.SendReady L) (hvalid : c.sk.valid = true)
    {resp : List UInt8} (hresp : resp.length = L) (w : WriteResult) :
    ∃ e, c.sendData resp w = .ok e ∧ e.SendReady L ∧ RecvSame c e ∧ e.sk.valid = true ∧
      e.responses = if c.canSend then c.responses ++ [resp] else c.responses := by
  obtain ⟨d, hload, hready, heq⟩ := sendData_eq hc hresp w
  have hsame := hload.recvSame
  have hdvalid : d.sk.valid = true := by rw [hload.sk, hvalid]
  rw [heq]
  cases w with
  | failed => exact ⟨d, rfl, hready, hsame, hdvalid, hload.responses⟩
  | room n =>
    by_cases hn : n < d.sendBuff.remaining
    · refine ⟨_, writeBuff_short hdvalid hn, ?_, ?_, hdvalid, hload.responses⟩
      · exact { limit := hready.limit, start := fun h => by cases h }
      · exact ⟨hsame.recvBuff, hsame.received, hsame.bodies⟩
    · refine ⟨_, writeBuff_full (by omega), ?_, ?_, hdvalid, hload.responses⟩
      · exact { limit := hready.limit, start := fun _ => rfl }
      · exact ⟨hsame.recvBuff, hsame.received, hsame.bodies⟩

end Client

end Nwchecker.Nonblock
