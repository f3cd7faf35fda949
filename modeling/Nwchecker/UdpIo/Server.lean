import Nwchecker.Types
import Nwchecker.UdpIo.Message

/-!
# The UDP server of `udpio`

The loop of `UDPServerIO.java`. Only an `IOException` is caught, and outside the loop, so whatever
`toString` throws at a datagram ends the server. `survives_iff` says which datagrams do not end it:
those that have a body.
-/

namespace Nwchecker.UdpIo

open Java

/-- `rsp.getBytes()` -/
def rsp : List UInt8 := "Hello Client!".toList.map fun c => UInt8.ofNat c.toNat

def RECV_BUFF_LEN : Nat := 1500

/-- A datagram, and what `System.currentTimeMillis()` says when it is answered. -/
structure Arrival where
  source : SockAddr
  data : List UInt8
  now : Int64
  deriving DecidableEq, Repr

/-- A datagram that has been sent. -/
structure Reply where
  dest : SockAddr
  data : List UInt8
  deriving DecidableEq, Repr

/-- The server at the head of its loop. -/
structure UDPServerIO where
  sequence : Int16
  /-- The length of `inMessage`, which bounds what is received. -/
  room : Nat
  deriving DecidableEq, Repr

namespace UDPServerIO

def start : UDPServerIO := { sequence := 1000, room := RECV_BUFF_LEN }

/-- The message that is sent. -/
def sMsg (s : UDPServerIO) (now : Int64) : Message :=
  ((((Message.new.setVersion 1).setFlag 21).setSequence s.sequence).setTimestamp
    (now.toInt32 &&& 0xFFFFFFFF)).setBody rsp

/-- A turn of the loop. The message is printed first, which is all that may fail. -/
def turn (decode : List UInt8 → String) (s : UDPServerIO) (a : Arrival) :
    Except RuntimeException (Reply × UDPServerIO) := do
  let rMsg := Message.new.deserialize (a.data.take s.room)
  let _ ← rMsg.toString decode
  let outMessage ← (s.sMsg a.now).serialize
  return ({ dest := a.source, data := outMessage },
    { sequence := s.sequence + 1, room := RECV_BUFF_LEN })

/-- What the loop has sent, and the exception that ended it. -/
structure Served where
  sent : List Reply
  thrown : Option RuntimeException
  deriving DecidableEq, Repr

/-- The loop of `main`, for as many datagrams as arrive. -/
def main (decode : List UInt8 → String) (s : UDPServerIO) : List Arrival → Served
  | [] => { sent := [], thrown := none }
  | a :: arrivals =>
    match s.turn decode a with
    | .error e => { sent := [], thrown := some e }
    | .ok (reply, s) =>
      { sent := reply :: (main decode s arrivals).sent
        thrown := (main decode s arrivals).thrown }

/-- The reply goes to the source, and `deserialize` takes it for what the server has set. -/
structure Answers (a : Arrival) (reply : Reply) : Prop where
  dest : reply.dest = a.source
  reads : ∃ sequence body, Message.new.deserialize reply.data =
      { version := 1, flag := 21, sequence := sequence, timestamp := a.now.toInt32
        body := some body, bodyLength := rsp.length } ∧ body.take rsp.length = rsp

/-- Every datagram is answered, and those without a whole header leave a message alone. -/
structure Survives (decode : List UInt8 → String) (arrivals : List Arrival) : Prop where
  answered : List.Forall₂ Answers arrivals (main decode start arrivals).sent
  goesOn : (main decode start arrivals).thrown = none
  intact : ∀ a ∈ arrivals, a.data.length < 8 → ∀ m : Message, m.deserialize a.data = m

variable {decode : List UInt8 → String} {s : UDPServerIO} {a : Arrival}

/-! ## A turn -/

theorem sMsg_answers (s : UDPServerIO) (a : Arrival) :
    ∃ data, (s.sMsg a.now).serialize = .ok data ∧ Answers a { dest := a.source, data := data } := by
  obtain ⟨data, hdata⟩ : ∃ data, (s.sMsg a.now).serialize = .ok data := ⟨_, rfl⟩
  have hmask : a.now.toInt32 &&& 0xFFFFFFFF = a.now.toInt32 := Int32.and_neg_one
  refine ⟨data, hdata, rfl, s.sequence,
    rsp.take Message.bodyRoom ++ List.replicate (Message.bodyRoom - rsp.length) 0, ?_, ?_⟩
  · rw [Message.deserialize_serialize rfl (by decide) hdata, ← hmask]
    rfl
  · have htake : rsp.take Message.bodyRoom = rsp := List.take_of_length_le (by decide)
    rw [htake]
    exact List.take_left' rfl

/-- A datagram with a body is answered. -/
theorem turn_answers (decode : List UInt8 → String) (hroom : s.room = RECV_BUFF_LEN)
    (h : 9 ≤ a.data.length) : ∃ reply s', s.turn decode a = .ok (reply, s') ∧ Answers a reply ∧
      s'.room = RECV_BUFF_LEN := by
  have hlen : 9 ≤ (a.data.take s.room).length := by
    rw [List.length_take, hroom, RECV_BUFF_LEN]
    omega
  obtain ⟨text, htext⟩ := (Message.toString_deserialize decode _).mpr hlen
  obtain ⟨data, hdata, hanswers⟩ := sMsg_answers s a
  refine ⟨{ dest := a.source, data := data }, { sequence := s.sequence + 1, room := RECV_BUFF_LEN },
    ?_, hanswers, rfl⟩
  simp only [turn, htext, hdata]
  rfl

/-- And no other one. -/
theorem length_of_turn {r : Reply × UDPServerIO} (h : s.turn decode a = .ok r) :
    9 ≤ a.data.length := by
  have hlen : 9 ≤ (a.data.take s.room).length := by
    apply (Message.toString_deserialize decode _).mp
    cases htext : (Message.new.deserialize (a.data.take s.room)).toString decode with
    | ok text => exact ⟨text, rfl⟩
    | error e =>
      simp only [turn, htext] at h
      cases h
  rw [List.length_take] at hlen
  omega

/-! ## The loop -/

theorem main_answers (decode : List UInt8 → String) {arrivals : List Arrival}
    (hroom : s.room = RECV_BUFF_LEN) (h : ∀ a ∈ arrivals, 9 ≤ a.data.length) :
    List.Forall₂ Answers arrivals (s.main decode arrivals).sent ∧
      (s.main decode arrivals).thrown = none := by
  induction arrivals generalizing s with
  | nil => exact ⟨.nil, rfl⟩
  | cons a arrivals ih =>
    obtain ⟨reply, s', hturn, hanswers, hroom'⟩ :=
      turn_answers decode hroom (h a List.mem_cons_self)
    obtain ⟨hrest, hthrown⟩ := ih hroom' fun b hb => h b (List.mem_cons_of_mem a hb)
    rw [main, hturn]
    exact ⟨.cons hanswers hrest, hthrown⟩

theorem length_of_main {arrivals : List Arrival} (h : (s.main decode arrivals).thrown = none) :
    ∀ a ∈ arrivals, 9 ≤ a.data.length := by
  induction arrivals generalizing s with
  | nil =>
    intro a ha
    cases ha
  | cons a arrivals ih =>
    intro b hb
    cases hturn : s.turn decode a with
    | error e =>
      rw [main, hturn] at h
      cases h
    | ok r =>
      rw [main, hturn] at h
      cases hb with
      | head => exact length_of_turn hturn
      | tail _ hb => exact ih h b hb

/-- **The server survives the datagrams that have a body, and no others.** -/
theorem survives_iff (decode : List UInt8 → String) (arrivals : List Arrival) :
    Survives decode arrivals ↔ ∀ a ∈ arrivals, 9 ≤ a.data.length := by
  constructor
  · intro h
    exact length_of_main h.goesOn
  · intro h
    obtain ⟨hanswered, hthrown⟩ := @main_answers start decode _ rfl h
    refine ⟨hanswered, hthrown, fun a ha hlt => ?_⟩
    have := h a ha
    omega

/-- `ISO-8859-1`, for one. -/
def latin1 (bytes : List UInt8) : String := String.ofList (bytes.map fun b => Char.ofNat b.toNat)

def sampleArrival (data : List UInt8) : Arrival :=
  { source := { port := 9002, addr := 0x7F000001 }, data := data, now := 1000 }

/-- An empty datagram ends the server. So does a header alone, which leaves a length of `-1`. -/
theorem bodiless_stops :
    (main latin1 start [sampleArrival []]).thrown = some .nullPointer ∧
      (main latin1 start [sampleArrival (List.replicate 8 1)]).thrown = some .indexOutOfBounds ∧
      ¬ Survives latin1 [sampleArrival []] ∧
      ¬ Survives latin1 [sampleArrival (List.replicate 8 1)] := by
  refine ⟨rfl, rfl, fun h => ?_, fun h => ?_⟩
  · exact nomatch h.goesOn
  · exact nomatch h.goesOn

end UDPServerIO

end Nwchecker.UdpIo
