import Mathlib.Data.List.GetD
import Nwchecker.Java.Selection
import Nwchecker.Lib.Loop

/-!
# The client of the non-blocking server

`NonblockTCPClient.java`. Its channel blocks: a read waits until something has arrived, and takes
what fits in the buffer. The inner loop looks at how much one read has returned, not at how much the
buffer holds, and after a body that was cut it does not turn the buffer round again.

* `receivePass` — one pass of the inner loop
* `AllDecoded` — every response is decoded as it was sent
* `allDecoded_of_ordinary` — so it is when no response is longer than the one before, and the first
  read of four bytes or more ends it
-/

namespace Nwchecker.Nonblock.TCPClient

open Buffers Java Loop Words

/-! ## The inner loop -/

/-- What happens on the connection while a read waits. -/
inductive Arrival where
  | bytes (data : List UInt8)
  | endOfStream
  /-- An `IOException`. -/
  | failed
  deriving DecidableEq, Repr

/-- The inner loop in front of `read`, and what has arrived and has not been read. -/
structure Receiving where
  recvBuff : Buffer UInt8
  bodyLen : Int
  isFlip : Bool
  queue : List UInt8
  ended : Bool
  deriving DecidableEq, Repr

/-- How the inner loop is left. -/
inductive Received where
  /-- With a body. -/
  | response (body : List UInt8) (recvBuff : Buffer UInt8) (queue : List UInt8)
  /-- By `return`. -/
  | closed
  | ioException
  | threw (e : RuntimeException)
  deriving DecidableEq, Repr

namespace Receiving

/-- From `if (isFlip)` on. -/
def takeBody (s : Receiving) : Flow Receiving Received :=
  let recvBuff := if s.isFlip then s.recvBuff.flip else s.recvBuff
  if (recvBuff.remaining : Int) < s.bodyLen then .again { s with recvBuff := recvBuff.compact }
  else if s.bodyLen < 0 then .leave (.threw .negativeArraySize)
  else
    match recvBuff.get s.bodyLen.toNat with
    | none => .leave (.threw .bufferUnderflow)
    | some (body, recvBuff) => .leave (.response body recvBuff s.queue)

/-- From `if (bodyLen == -1)` on, when `read` has returned `rbytes`. -/
def afterRead (s : Receiving) (rbytes : Nat) : Flow Receiving Received :=
  if s.bodyLen = -1 then
    if rbytes < 4 then .again s
    else
      match getInt s.recvBuff.flip with
      | none => .leave (.threw .bufferUnderflow)
      | some (bodyLen, recvBuff) =>
        takeBody { s with recvBuff := recvBuff, bodyLen := bodyLen, isFlip := false }
  else s.takeBody

/-- `sock.read(recvBuff)` and what follows. -/
def read (s : Receiving) : Flow Receiving Received :=
  if s.recvBuff.remaining = 0 then s.afterRead 0
  else if s.queue = [] then
    -- the read waits, unless there is nothing to wait for
    if s.ended then .leave .closed else .again s
  else
    let rbytes := min s.recvBuff.remaining s.queue.length
    match s.recvBuff.put (s.queue.take rbytes) with
    | none => .leave (.threw .bufferOverflow)
    | some recvBuff =>
      afterRead { s with recvBuff := recvBuff, queue := s.queue.drop rbytes } rbytes

end Receiving

/-- One pass. -/
def receivePass (a : Arrival) (s : Receiving) : Flow Receiving Received :=
  match a with
  | .bytes data => { s with queue := s.queue ++ data }.read
  | .endOfStream => { s with ended := true }.read
  | .failed => .leave .ioException

/-! ## The rounds -/

/-- The text of a request: `"Request time"` and a date. -/
structure Request where
  text : List UInt8
  size : text.length = 31
  deriving DecidableEq, Repr

/-- A round: the response that the server sends, and the pieces in which it arrives. -/
structure Round where
  request : Request
  body : List UInt8
  size : body.length ≤ 1020
  pieces : List (List UInt8)
  pieces_flatten : pieces.flatten = frame body
  pieces_ne : [] ∉ pieces
  deriving DecidableEq, Repr

/-- Behind the pieces nothing arrives any more. -/
def Round.arrivals (r : Round) (n : Nat) : Arrival := .bytes (r.pieces.getD n [])

/-- `main` in front of a round. -/
structure Client where
  sendBuff : Buffer UInt8
  recvBuff : Buffer UInt8
  queue : List UInt8
  rquestTimes : Int
  deriving DecidableEq, Repr

namespace Client

def start : Client where
  sendBuff := Buffer.allocate 1024 0
  recvBuff := Buffer.allocate 1024 0
  queue := []
  rquestTimes := 10

/-- The request, from `putInt` to `write`, which takes all of it. -/
def send (c : Client) (request : Request) : Option (Buffer UInt8) :=
  match putInt c.sendBuff (UInt32.ofNat request.text.length) with
  | none => none
  | some sendBuff =>
    match sendBuff.put request.text with
    | none => none
    | some sendBuff => some (sendBuff.flip.skip sendBuff.flip.remaining)

/-- The inner loop is entered. -/
def enter (c : Client) : Receiving where
  recvBuff := c.recvBuff.rewind
  bodyLen := -1
  isFlip := true
  queue := c.queue
  ended := false

/-- The end of a round. -/
def next (c : Client) (sendBuff recvBuff : Buffer UInt8) (queue : List UInt8) : Client where
  sendBuff := sendBuff.rewind
  recvBuff := recvBuff
  queue := queue
  rquestTimes := c.rquestTimes - 1

end Client

/-- **Every response is decoded.** The inner loop ends once the response has arrived, with the body
that the server has sent. The last round is the one with `rquest_times == 0`. -/
def AllDecoded : Client → List Round → Prop
  | _, [] => True
  | c, r :: rs => ∃ sendBuff recvBuff queue, c.send r.request = some sendBuff ∧
      LeavesWith receivePass r.arrivals c.enter (.response r.body recvBuff queue) ∧
        (c.rquestTimes = 0 ∨ AllDecoded (c.next sendBuff recvBuff queue) rs)

/-- The first read that returns four bytes or more brings all that is missing of the response. -/
def Round.InOneRead (r : Round) : Prop :=
  ∃ front last, r.pieces = front ++ [last] ∧ (∀ p ∈ front, p.length < 4) ∧ 4 ≤ last.length

/-- No response is longer than the one before, which has left the limit of the buffer there, and
each is in one read. -/
def Ordinary : Nat → List Round → Prop
  | _, [] => True
  | limit, r :: rs =>
    (4 + r.body.length ≤ limit ∧ r.InOneRead) ∧ Ordinary (4 + r.body.length) rs

/-! ## Reads that are too short for the length -/

variable {limit : Nat} {got p body : List UInt8} {s : Receiving}

/-- The loop has no length yet, and the buffer has what has been read. -/
structure Waiting (limit : Nat) (got : List UInt8) (s : Receiving) : Prop where
  behind : s.recvBuff.behind = got
  limit : s.recvBuff.limit = limit
  bodyLen : s.bodyLen = -1
  isFlip : s.isFlip = true
  queue : s.queue = []

/-- A piece for which there is room is read as a whole. -/
theorem Waiting.reads (hs : Waiting limit got s) (hne : p ≠ [])
    (hroom : got.length + p.length ≤ limit) :
    ∃ recvBuff, recvBuff.behind = got ++ p ∧ recvBuff.limit = limit ∧
      receivePass (.bytes p) s = Receiving.afterRead { s with recvBuff := recvBuff, queue := [] }
        p.length := by
  have hpos := List.length_pos_of_ne_nil hne
  have hposition : s.recvBuff.position = got.length := by
    rw [← hs.behind, Buffer.behind_length]
  have hremaining : p.length ≤ s.recvBuff.remaining := by
    rw [Buffer.remaining, hs.limit, hposition]
    omega
  obtain ⟨recvBuff, hput, hbehind, -, hlimit, -⟩ := Buffer.put_eq_some hremaining
  rw [hs.behind] at hbehind
  rw [hs.limit] at hlimit
  refine ⟨recvBuff, hbehind, hlimit, ?_⟩
  have hmin : min s.recvBuff.remaining p.length = p.length := Nat.min_eq_right hremaining
  simp only [receivePass, Receiving.read, hs.queue, List.nil_append, if_neg hne, hmin,
    List.take_length, List.drop_length, hput]
  rw [if_neg (by omega)]

/-- A read of less than four bytes leaves the loop where it was, whatever the buffer holds. -/
theorem Waiting.short (hs : Waiting limit got s) (hne : p ≠ []) (hshort : p.length < 4)
    (hroom : got.length + p.length ≤ limit) :
    ∃ s', receivePass (.bytes p) s = .again s' ∧ Waiting limit (got ++ p) s' := by
  obtain ⟨recvBuff, hbehind, hlimit, hpass⟩ := hs.reads hne hroom
  refine ⟨{ s with recvBuff := recvBuff, queue := [] }, ?_, ?_⟩
  · rw [hpass, Receiving.afterRead, if_pos hs.bodyLen, if_pos hshort]
  · exact ⟨hbehind, hlimit, hs.bodyLen, hs.isFlip, rfl⟩

theorem Waiting.shorts {front : List (List UInt8)} (hs : Waiting limit got s)
    (hne : [] ∉ front) (hshort : ∀ p ∈ front, p.length < 4)
    (hroom : got.length + front.flatten.length ≤ limit) :
    ∃ s', passes receivePass (front.map .bytes) s = .again s' ∧
      Waiting limit (got ++ front.flatten) s' := by
  induction front generalizing got s with
  | nil =>
    refine ⟨s, rfl, ?_⟩
    rw [List.flatten_nil, List.append_nil]
    exact hs
  | cons p front ih =>
    rw [List.flatten_cons, List.length_append] at hroom
    obtain ⟨t, ht, hwait⟩ := hs.short (fun h => hne (h ▸ List.mem_cons_self))
      (hshort p List.mem_cons_self) (by omega)
    obtain ⟨s', hs', hwait'⟩ := ih hwait (fun h => hne (List.mem_cons_of_mem _ h))
      (fun q hq => hshort q (List.mem_cons_of_mem _ hq)) (by rw [List.length_append]; omega)
    refine ⟨s', ?_, ?_⟩
    · rw [List.map_cons, passes_cons_again ht, hs']
    · rw [List.flatten_cons, ← List.append_assoc]
      exact hwait'

/-! ## The read that ends a response -/

theorem getInt_frame {buff : Buffer UInt8} (hbody : body.length < 2147483648)
    (hahead : buff.ahead = frame body) :
    getInt buff = some ((body.length : Int), buff.skip 4) := by
  have hlen : 4 ≤ buff.remaining := by
    rw [← buff.ahead_length, hahead, frame_length]
    omega
  have hword : beWord ((frame body).take 4) = UInt32.ofNat body.length := by
    rw [beWord_take (Nat.le_refl 4), frame, beWord_beBytes]
  rw [getInt, Buffer.get_eq_some hlen, Option.map_some, hahead, hword, i32_length hbody]

/-- The last read brings what is missing of the response, four bytes at least. -/
theorem Waiting.last (hs : Waiting limit got s) (hbody : body.length < 2147483648)
    (hframe : got ++ p = frame body) (hlong : 4 ≤ p.length) (hroom : 4 + body.length ≤ limit) :
    ∃ recvBuff, receivePass (.bytes p) s = .leave (.response body recvBuff []) ∧
      recvBuff.limit = 4 + body.length := by
  have hlength : got.length + p.length = 4 + body.length := by
    rw [← List.length_append, hframe, frame_length]
  obtain ⟨recvBuff, hbehind, hlimit, hpass⟩ := hs.reads (p := p)
    (fun h => by rw [h] at hlong; cases hlong) (by omega)
  rw [hframe] at hbehind
  have hposition : recvBuff.position = 4 + body.length := by
    rw [← Buffer.behind_length, hbehind, frame_length]
  have hahead : (recvBuff.flip.skip 4).ahead = body := by
    rw [Buffer.skip_ahead, Buffer.flip_ahead, hbehind, frame_drop]
  have hremaining : (recvBuff.flip.skip 4).remaining = body.length := by
    rw [← Buffer.ahead_length, hahead]
  refine ⟨(recvBuff.flip.skip 4).skip body.length, ?_, hposition⟩
  rw [hpass, Receiving.afterRead, if_pos hs.bodyLen, if_neg (by omega)]
  have hgetInt : getInt recvBuff.flip = some ((body.length : Int), recvBuff.flip.skip 4) :=
    getInt_frame hbody hbehind
  simp only [hgetInt, Receiving.takeBody, Bool.false_eq_true, if_false, hremaining]
  rw [if_neg (by omega), if_neg (by omega), Int.toNat_natCast,
    Buffer.get_eq_some (Nat.le_of_eq hremaining.symm), hahead, List.take_length]

/-! ## Rounds -/

/-- The client in front of a round: there is room for a request, and nothing is left to read. -/
structure Ready (limit : Nat) (c : Client) : Prop where
  sendPosition : c.sendBuff.position = 0
  sendLimit : 35 ≤ c.sendBuff.limit
  recvLimit : c.recvBuff.limit = limit
  queue : c.queue = []

variable {c : Client} {r : Round}

theorem Ready.send (hc : Ready limit c) (request : Request) :
    ∃ sendBuff, c.send request = some sendBuff ∧ sendBuff.limit = 35 := by
  have hsize := request.size
  have hpos := hc.sendPosition
  have hlim := hc.sendLimit
  obtain ⟨buff, hbuff, -, hposition, hlimit, -⟩ :=
    Buffer.put_eq_some (b := c.sendBuff) (l := beBytes (UInt32.ofNat request.text.length))
      (by rw [beBytes_length, Buffer.remaining]; omega)
  rw [beBytes_length] at hposition
  obtain ⟨buff', hbuff', -, hposition', -, -⟩ :=
    Buffer.put_eq_some (b := buff) (l := request.text) (by rw [Buffer.remaining]; omega)
  refine ⟨_, by rw [Client.send, putInt, hbuff]; simp only [hbuff']; rfl, ?_⟩
  show buff'.position = 35
  omega

theorem Round.firstInputs_arrivals (r : Round) :
    firstInputs r.arrivals r.pieces.length = r.pieces.map .bytes := by
  have hlist := firstInputs_getD (r.pieces.map Arrival.bytes) (.bytes [])
  rw [List.length_map] at hlist
  rw [← hlist]
  refine congrArg (firstInputs · r.pieces.length) ?_
  funext n
  rw [Round.arrivals, List.getD_map]

/-- **A round.** -/
theorem Ready.round (hc : Ready limit c) (hfits : 4 + r.body.length ≤ limit)
    (hone : r.InOneRead) :
    ∃ sendBuff recvBuff, c.send r.request = some sendBuff ∧
      LeavesWith receivePass r.arrivals c.enter (.response r.body recvBuff []) ∧
        Ready (4 + r.body.length) (c.next sendBuff recvBuff []) := by
  obtain ⟨sendBuff, hsend, hsendLimit⟩ := hc.send r.request
  obtain ⟨front, last, hpieces, hshort, hlong⟩ := hone
  have hframe : front.flatten ++ last = frame r.body := by
    rw [← r.pieces_flatten, hpieces, List.flatten_concat]
  have hlength : front.flatten.length + last.length = 4 + r.body.length := by
    rw [← List.length_append, hframe, frame_length]
  have hne : [] ∉ front := by
    intro hmem
    refine r.pieces_ne ?_
    rw [hpieces]
    exact List.mem_append_left _ hmem
  have henter : Waiting limit [] c.enter :=
    ⟨rfl, hc.recvLimit, rfl, rfl, hc.queue⟩
  obtain ⟨t, ht, hwait⟩ := henter.shorts hne hshort (by simp only [List.length_nil]; omega)
  rw [List.nil_append] at hwait
  have hsize := r.size
  obtain ⟨recvBuff, hpass, hlimit⟩ := hwait.last (by omega) hframe hlong hfits
  refine ⟨sendBuff, recvBuff, hsend, ⟨r.pieces.length, ?_⟩, ?_⟩
  · rw [r.firstInputs_arrivals, hpieces, List.map_append, passes_append_again _ _ ht]
    exact passes_cons_leave hpass []
  · exact ⟨rfl, Nat.le_of_eq hsendLimit.symm, hlimit, rfl⟩

theorem Ready.allDecoded {rs : List Round} (hc : Ready limit c) (hrs : Ordinary limit rs) :
    AllDecoded c rs := by
  induction rs generalizing limit c with
  | nil => exact trivial
  | cons r rs ih =>
    obtain ⟨⟨hfits, hone⟩, hrest⟩ := hrs
    obtain ⟨sendBuff, recvBuff, hsend, hleaves, hnext⟩ := hc.round hfits hone
    exact ⟨sendBuff, recvBuff, [], hsend, hleaves, Or.inr (ih hnext hrest)⟩

/-- **Ordinary responses are decoded.** -/
theorem allDecoded_of_ordinary {rs : List Round} (h : Ordinary 1024 rs) :
    AllDecoded Client.start rs := by
  refine Ready.allDecoded ?_ h
  exact ⟨rfl, by decide, rfl, rfl⟩

/-- A request like any other. -/
def someRequest : Request := ⟨List.replicate 31 65, rfl⟩

/-- The response `[65, 66]`, cut in its length. -/
def cutInLength : Round where
  request := someRequest
  body := [65, 66]
  size := by decide
  pieces := [[0, 0], [0, 2, 65, 66]]
  pieces_flatten := by decide
  pieces_ne := by decide

/-- The response `[67]` in one piece. -/
def inOnePiece : Round where
  request := someRequest
  body := [67]
  size := by decide
  pieces := [[0, 0, 0, 1, 67]]
  pieces_flatten := by decide
  pieces_ne := by decide

theorem twoRounds_decoded : AllDecoded Client.start [cutInLength, inOnePiece] := by
  refine allDecoded_of_ordinary ⟨⟨by decide, ?_⟩, ⟨by decide, ?_⟩, trivial⟩
  · exact ⟨[[0, 0]], [0, 2, 65, 66], rfl, by decide, by decide⟩
  · exact ⟨[], [0, 0, 0, 1, 67], rfl, by decide, by decide⟩

/-- The response `[65, 66]`, cut behind its length. -/
def cutBehindLength : Round where
  request := someRequest
  body := [65, 66]
  size := by decide
  pieces := [[0, 0, 0, 2], [65, 66]]
  pieces_flatten := by decide
  pieces_ne := by decide

/-- The body with which the inner loop has been left. -/
def leftWith : Flow Receiving Received → Option (List UInt8)
  | .leave (.response body _ _) => some body
  | _ => none

/-- What is taken for its body lies behind what has been read of it. -/
theorem cutBehindLength_not_decoded : ¬AllDecoded Client.start [cutBehindLength] := by
  rintro ⟨sendBuff, recvBuff, queue, -, hleaves, -⟩
  have hbody : leftWith (passes receivePass (firstInputs cutBehindLength.arrivals 2)
      Client.start.enter) = some [0, 2] := by
    decide +kernel
  cases hpasses : passes receivePass (firstInputs cutBehindLength.arrivals 2)
      Client.start.enter with
  | again s =>
    rw [hpasses] at hbody
    cases hbody
  | leave res =>
    obtain rfl := LeavesWith.unique ⟨2, hpasses⟩ hleaves
    rw [hpasses] at hbody
    cases hbody

end Nwchecker.Nonblock.TCPClient
