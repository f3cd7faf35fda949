import Nwchecker.Java.Selection

/-!
# The messages of `udpio`

`Message.java`: a header of eight bytes and a body. `deserialize` assigns the fields one by one, and
an `EOFException` ends it with those that have been assigned.

Its body is missing after a short header, and its length is `-1` when nothing follows the header.
`toString` throws on either, so it takes nine bytes to be printed (`toString_deserialize`).
`serialize` writes a body of any length, and `deserialize` reads no more than its array holds
(`roundTrips_iff`).
-/

namespace Nwchecker.UdpIo

open Java Words

/-! ## The streams

A `DataInputStream` on a `ByteArrayInputStream` is the bytes that are left. `none` is an
`EOFException`.
-/

def readByte : List UInt8 → Option (Int8 × List UInt8)
  | [] => none
  | b :: rest => some (b.toInt8, rest)

def readShort : List UInt8 → Option (Int16 × List UInt8)
  | hi :: lo :: rest => some ((beWord16 hi lo).toInt16, rest)
  | _ => none

def readInt (stream : List UInt8) : Option (Int32 × List UInt8) :=
  if stream.length < 4 then none else some ((beWord stream).toInt32, stream.drop 4)

/-- `read(b)`: what it returns, and what `b` holds then. -/
def read (stream b : List UInt8) : Int × List UInt8 :=
  if stream = [] then (-1, b)
  else (min b.length stream.length, stream.take b.length ++ b.drop stream.length)

def writeByte (v : Int8) : List UInt8 := [v.toUInt8]

def writeShort (v : Int16) : List UInt8 := beBytes16 v.toUInt16

def writeInt (v : Int32) : List UInt8 := beBytes v.toUInt32

/-- A read takes `n` bytes, or there are not as many. -/
def Takes {α : Type} (n : Nat) (read : List UInt8 → Option (α × List UInt8)) : Prop :=
  ∀ stream, (read stream = none ∧ stream.length < n) ∨
    ∃ x, read stream = some (x, stream.drop n) ∧ n ≤ stream.length

theorem readByte_takes : Takes 1 readByte
  | [] => .inl ⟨rfl, by decide⟩
  | b :: rest => .inr ⟨b.toInt8, rfl, by simp⟩

theorem readShort_takes : Takes 2 readShort
  | [] => .inl ⟨rfl, by decide⟩
  | [_] => .inl ⟨rfl, Nat.lt_succ_self 1⟩
  | hi :: lo :: rest => .inr ⟨(beWord16 hi lo).toInt16, rfl, by simp⟩

theorem readInt_takes : Takes 4 readInt := by
  intro stream
  unfold readInt
  split
  · next hlt => exact .inl ⟨rfl, hlt⟩
  · next hge => exact .inr ⟨_, rfl, by omega⟩

theorem readByte_writeByte (v : Int8) (rest : List UInt8) :
    readByte (writeByte v ++ rest) = some (v, rest) := by
  simp [readByte, writeByte]

theorem readShort_writeShort (v : Int16) (rest : List UInt8) :
    readShort (writeShort v ++ rest) = some (v, rest) := by
  rw [writeShort, beBytes16, List.cons_append, List.cons_append, List.nil_append, readShort,
    beWord16_beBytes16, Int16.toInt16_toUInt16]

theorem readInt_writeInt (v : Int32) (rest : List UInt8) :
    readInt (writeInt v ++ rest) = some (v, rest) := by
  have hlen : ¬(writeInt v ++ rest).length < 4 := by
    rw [List.length_append, writeInt, beBytes_length]
    omega
  rw [readInt, if_neg hlen, writeInt, beWord_beBytes, List.drop_left' (beBytes_length _),
    Int32.toInt32_toUInt32]

/-! ## The message -/

structure Message where
  version : Int8
  flag : Int8
  sequence : Int16
  timestamp : Int32
  /-- `none` is `null`. -/
  body : Option (List UInt8)
  bodyLength : Int
  deriving DecidableEq, Repr

namespace Message

/-- `new Message()` -/
def new : Message where
  version := 1
  flag := 0
  sequence := 0
  timestamp := 0
  body := none
  bodyLength := 0

def setVersion (m : Message) (version : Int8) : Message := { m with version := version }

def setFlag (m : Message) (flag : Int8) : Message := { m with flag := flag }

def setSequence (m : Message) (sequence : Int16) : Message := { m with sequence := sequence }

def setTimestamp (m : Message) (timestamp : Int32) : Message := { m with timestamp := timestamp }

/-- `bodyLength` stays as it is. -/
def setBody (m : Message) (body : List UInt8) : Message := { m with body := some body }

/-- The bytes of the packet. -/
def serialize (m : Message) : Except RuntimeException (List UInt8) :=
  match m.body with
  | none => .error .nullPointer
  | some body =>
    .ok (writeByte m.version ++ (writeByte m.flag ++ (writeShort m.sequence ++
      (writeInt m.timestamp ++ body))))

/-- The size of the array that `deserialize` makes for a body. -/
def bodyRoom : Nat := 512

/-- The message is changed in place, and the exception is caught. -/
def deserialize (m : Message) (inMessage : List UInt8) : Message :=
  match readByte inMessage with
  | none => m
  | some (version, stream) =>
    let m := { m with version := version }
    match readByte stream with
    | none => m
    | some (flag, stream) =>
      let m := { m with flag := flag }
      match readShort stream with
      | none => m
      | some (sequence, stream) =>
        let m := { m with sequence := sequence }
        match readInt stream with
        | none => m
        | some (timestamp, stream) =>
          let (bodyLength, body) := read stream (List.replicate bodyRoom 0)
          { m with timestamp := timestamp, body := some body, bodyLength := bodyLength }

/-- `decode` is the charset of the platform, which decodes any bytes. -/
def toString (decode : List UInt8 → String) (m : Message) : Except RuntimeException String :=
  match m.body with
  | none => .error .nullPointer
  | some body =>
    if m.bodyLength < 0 ∨ body.length < m.bodyLength then .error .indexOutOfBounds
    else
      .ok (" version: " ++ m.version.toInt.repr ++ " flag: " ++ m.flag.toInt.repr
        ++ " sequence: " ++ m.sequence.toInt.repr
        -- the sequence number once more
        ++ " timestamp: " ++ m.sequence.toInt.repr
        ++ " message body: " ++ decode (body.take m.bodyLength.toNat))

/-! ## What a datagram makes of a message -/

variable {m : Message} {data : List UInt8}

/-- Eight bytes fill the header, and the body is what follows. -/
theorem deserialize_header (m : Message) (h : 8 ≤ data.length) :
    ∃ version flag sequence timestamp, m.deserialize data =
      { version := version, flag := flag, sequence := sequence, timestamp := timestamp
        body := some (read (data.drop 8) (List.replicate bodyRoom 0)).2
        bodyLength := (read (data.drop 8) (List.replicate bodyRoom 0)).1 } := by
  obtain ⟨-, hlt⟩ | ⟨version, hversion, -⟩ := readByte_takes data
  · omega
  obtain ⟨-, hlt⟩ | ⟨flag, hflag, -⟩ := readByte_takes (data.drop 1)
  · rw [List.length_drop] at hlt
    omega
  obtain ⟨-, hlt⟩ | ⟨sequence, hsequence, -⟩ := readShort_takes ((data.drop 1).drop 1)
  · simp only [List.length_drop] at hlt
    omega
  obtain ⟨-, hlt⟩ | ⟨timestamp, htimestamp, -⟩ := readInt_takes (((data.drop 1).drop 1).drop 2)
  · simp only [List.length_drop] at hlt
    omega
  refine ⟨version, flag, sequence, timestamp, ?_⟩
  simp only [deserialize, hversion, hflag, hsequence, htimestamp]
  simp only [List.drop_drop]

/-- A shorter datagram does not reach the body. -/
theorem deserialize_short (m : Message) (h : data.length < 8) :
    (m.deserialize data).body = m.body := by
  unfold deserialize
  obtain ⟨hversion, -⟩ | ⟨version, hversion, -⟩ := readByte_takes data
  · simp only [hversion]
  obtain ⟨hflag, -⟩ | ⟨flag, hflag, -⟩ := readByte_takes (data.drop 1)
  · simp only [hversion, hflag]
  obtain ⟨hsequence, -⟩ | ⟨sequence, hsequence, -⟩ := readShort_takes ((data.drop 1).drop 1)
  · simp only [hversion, hflag, hsequence]
  obtain ⟨htimestamp, -⟩ | ⟨timestamp, -, hle⟩ := readInt_takes (((data.drop 1).drop 1).drop 2)
  · simp only [hversion, hflag, hsequence, htimestamp]
  · simp only [List.length_drop] at hle
    omega

/-- Only the empty datagram is sure to leave a message alone. -/
theorem deserialize_intact_iff : (∀ m : Message, m.deserialize data = m) ↔ data = [] := by
  constructor
  · intro h
    cases data with
    | nil => rfl
    | cons b rest =>
      -- two messages whose versions differ are left with one version
      have hversion : ∀ m : Message, (m.deserialize (b :: rest)).version = b.toInt8 := by
        intro m
        unfold deserialize
        simp only [readByte]
        repeat' split
        all_goals rfl
      have h₁ := (hversion (new.setVersion 1)).symm.trans
        (congrArg version (h (new.setVersion 1)))
      have h₂ := (hversion (new.setVersion 2)).symm.trans
        (congrArg version (h (new.setVersion 2)))
      exact absurd (h₁.symm.trans h₂) (by decide)
  · rintro rfl m
    rfl

/-! ## What can be printed -/

theorem toString_ok (decode : List UInt8 → String) {body : List UInt8} (hbody : m.body = some body)
    (h0 : 0 ≤ m.bodyLength) (hle : m.bodyLength ≤ body.length) :
    ∃ text, m.toString decode = .ok text := by
  unfold toString
  rw [hbody]
  exact ⟨_, if_neg (by omega)⟩

/-- A message in which nothing follows the header cannot be printed, nor one without a header. -/
theorem toString_deserialize (decode : List UInt8 → String) (data : List UInt8) :
    (∃ text, (new.deserialize data).toString decode = .ok text) ↔ 9 ≤ data.length := by
  constructor
  · rintro ⟨text, htext⟩
    by_contra hlt
    by_cases h8 : data.length < 8
    · have hbody := deserialize_short new h8
      rw [toString, hbody] at htext
      cases htext
    · obtain ⟨version, flag, sequence, timestamp, heq⟩ := deserialize_header new (Nat.not_lt.mp h8)
      have hnil : data.drop 8 = [] := List.drop_eq_nil_of_le (by omega)
      rw [heq, hnil] at htext
      cases htext
  · intro hle
    have h8 : 8 ≤ data.length := by omega
    obtain ⟨version, flag, sequence, timestamp, heq⟩ := deserialize_header new h8
    have hne : data.drop 8 ≠ [] := by
      intro hnil
      have := congrArg List.length hnil
      rw [List.length_drop, List.length_nil] at this
      omega
    rw [heq]
    refine toString_ok decode rfl ?_ ?_
    · simp only [read, if_neg hne]
      omega
    · simp only [read, if_neg hne, List.length_append, List.length_take, List.length_drop]
      omega

/-! ## Round trip -/

/-- What has been serialized is deserialized, and its body is read into the array. -/
theorem deserialize_written {body bytes : List UInt8} (hbody : m.body = some body)
    (h : m.serialize = .ok bytes) (m' : Message) :
    m'.deserialize bytes =
      { m with
        body := some (read body (List.replicate bodyRoom 0)).2
        bodyLength := (read body (List.replicate bodyRoom 0)).1 } := by
  rw [serialize, hbody] at h
  cases h
  simp only [deserialize, readByte_writeByte, readShort_writeShort, readInt_writeInt]

/-- The array has as much of the body as there is room for. -/
theorem deserialize_serialize {body bytes : List UInt8} (hbody : m.body = some body)
    (hne : body ≠ []) (h : m.serialize = .ok bytes) (m' : Message) :
    m'.deserialize bytes =
      { m with
        body := some (body.take bodyRoom ++ List.replicate (bodyRoom - body.length) 0)
        bodyLength := min bodyRoom body.length } := by
  rw [deserialize_written hbody h]
  simp only [read, if_neg hne, List.length_replicate, List.drop_replicate]

/-- `m'` is `m` with this body, and can be printed. -/
structure Restores (decode : List UInt8 → String) (m : Message) (body : List UInt8) (m' : Message) :
    Prop where
  version : m'.version = m.version
  flag : m'.flag = m.flag
  sequence : m'.sequence = m.sequence
  timestamp : m'.timestamp = m.timestamp
  bodyLength : m'.bodyLength = body.length
  body : ∃ array, m'.body = some array ∧ array.take body.length = body
  prints : ∃ text, m'.toString decode = .ok text

/-- The message goes into a datagram with this body, and comes out of it as it was. -/
def RoundTrips (decode : List UInt8 → String) (m : Message) (body : List UInt8) (m' : Message) :
    Prop :=
  ∃ inMessage, (m.setBody body).serialize = .ok inMessage ∧
    Restores decode m body (m'.deserialize inMessage)

/-- **Which bodies survive the way through a datagram:** those that are not empty and fit in the
array. -/
theorem roundTrips_iff (decode : List UInt8 → String) (m : Message) (body : List UInt8)
    (m' : Message) :
    RoundTrips decode m body m' ↔ 1 ≤ body.length ∧ body.length ≤ bodyRoom := by
  obtain ⟨bytes, hbytes⟩ : ∃ bytes, (m.setBody body).serialize = .ok bytes := ⟨_, rfl⟩
  constructor
  · rintro ⟨inMessage, hin, hrestores⟩
    have hlength := hrestores.bodyLength
    rw [deserialize_written rfl hin] at hlength
    -- the length that is read is `-1`, or no more than the array has room for
    by_cases hempty : body = []
    · subst hempty
      cases hlength
    · have hpos := List.length_pos_of_ne_nil hempty
      simp only [read, if_neg hempty, List.length_replicate] at hlength
      omega
  · rintro ⟨hpos, hle⟩
    have hne : body ≠ [] := List.length_pos_iff.mp hpos
    have hmin : min (bodyRoom : Int) body.length = body.length := by omega
    have hback := deserialize_serialize (m := m.setBody body) rfl hne hbytes m'
    rw [List.take_of_length_le hle, hmin] at hback
    refine ⟨bytes, hbytes, ?_⟩
    rw [hback]
    refine ⟨rfl, rfl, rfl, rfl, rfl, ⟨_, rfl, List.take_left⟩, ?_⟩
    refine toString_ok decode rfl (Int.natCast_nonneg _) ?_
    rw [List.length_append]
    exact Int.ofNat_le.mpr (Nat.le_add_right _ _)

/-- An empty body comes out with the length `-1`. -/
theorem emptyBody_not_roundTrips : ¬RoundTrips (fun _ => "") new [] new := by
  rintro ⟨inMessage, hin, hrestores⟩
  cases hin
  exact absurd hrestores.bodyLength (by decide)

end Message

end Nwchecker.UdpIo
