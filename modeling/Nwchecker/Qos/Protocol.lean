import Mathlib.Data.Rat.Defs
import Mathlib.Data.Rat.Cast.Order
import Nwchecker.Lib.Doubles
import Nwchecker.Lib.Framing
import Nwchecker.Lib.Words
import Nwchecker.Types

/-!
# The QoS protocol

`nwc_qos_protocol.h` and `nwc_qos_protocol.c`: the 16-byte package header, the queue of packages
that wait for their ack, and the estimators.

A package is `struct nwc_qos_hdr` followed by `length` bytes. A `double` is the rational it
stands for, and each operation on doubles rounds its exact result. The rounding is a parameter:
`Doubles.roundDouble` is that of the machine, and `id` that of exact arithmetic. The clock is a
parameter too: each function that calls `nwc_qos_milisecs` takes the reading.
-/

namespace Nwchecker

open Words Framing

/-! ## The header -/

/-- `struct nwc_qos_hdr` without the payload. -/
structure NwcQosHdr where
  timestamp : UInt32
  ackTimestamp : UInt32
  recvDelay : UInt32
  length : UInt32
  deriving DecidableEq, Repr

/-- `sizeof(struct nwc_qos_hdr)`. -/
def qosHdrLen : Nat := 16

/-- The header as it lies in memory. -/
def NwcQosHdr.bytes (h : NwcQosHdr) : List UInt8 :=
  leBytes h.timestamp ++ leBytes h.ackTimestamp ++ leBytes h.recvDelay ++ leBytes h.length

/-- The header that `(struct nwc_qos_hdr*)l` points at. -/
def NwcQosHdr.ofBytes (l : List UInt8) : NwcQosHdr where
  timestamp := leWord l
  ackTimestamp := leWord (l.drop 4)
  recvDelay := leWord (l.drop 8)
  length := leWord (l.drop 12)

@[simp] theorem NwcQosHdr.bytes_length (h : NwcQosHdr) : h.bytes.length = qosHdrLen := rfl

/-- A header put in front of anything is read back. -/
@[simp] theorem NwcQosHdr.ofBytes_bytes (h : NwcQosHdr) (t : List UInt8) :
    NwcQosHdr.ofBytes (h.bytes ++ t) = h := by
  have h4 : (h.bytes ++ t).drop 4
      = leBytes h.ackTimestamp ++ (leBytes h.recvDelay ++ (leBytes h.length ++ t)) := by
    simp only [NwcQosHdr.bytes, List.append_assoc]
    exact List.drop_left' rfl
  have h8 : (h.bytes ++ t).drop 8 = leBytes h.recvDelay ++ (leBytes h.length ++ t) := by
    rw [show (8 : Nat) = 4 + 4 from rfl, ← List.drop_drop, h4]
    exact List.drop_left' rfl
  have h12 : (h.bytes ++ t).drop 12 = leBytes h.length ++ t := by
    rw [show (12 : Nat) = 8 + 4 from rfl, ← List.drop_drop, h8]
    exact List.drop_left' rfl
  unfold NwcQosHdr.ofBytes
  rw [h4, h8, h12]
  simp only [NwcQosHdr.bytes, List.append_assoc, leWord_leBytes]

/-- The header lies in the first 16 bytes. -/
theorem NwcQosHdr.ofBytes_take {l : List UInt8} {n : Nat} (h : qosHdrLen ≤ n) :
    NwcQosHdr.ofBytes (l.take n) = NwcQosHdr.ofBytes l := by
  unfold qosHdrLen at h
  unfold NwcQosHdr.ofBytes
  rw [List.drop_take, List.drop_take, List.drop_take, leWord_take (by omega),
    leWord_take (by omega), leWord_take (by omega), leWord_take (by omega)]

/-- The layout of the stream: a 16-byte header and then `length` bytes. -/
def qosFormat : Format UInt8 where
  hdrLen := qosHdrLen
  hdrLen_pos := by decide
  payload := fun l => (NwcQosHdr.ofBytes l).length.toNat

@[simp] theorem qosFormat_hdrLen : qosFormat.hdrLen = qosHdrLen := rfl

theorem qosFormat_frameLen (l : List UInt8) :
    qosFormat.frameLen l = qosHdrLen + (NwcQosHdr.ofBytes l).length.toNat := by
  show qosHdrLen + (NwcQosHdr.ofBytes (l.take qosHdrLen)).length.toNat = _
  rw [NwcQosHdr.ofBytes_take (Nat.le_refl _)]

/-! ## Packages -/

/-- `struct nwc_qos_hdr` with its payload. -/
structure NwcPackage where
  hdr : NwcQosHdr
  data : List UInt8
  deriving DecidableEq, Repr

def NwcPackage.bytes (p : NwcPackage) : List UInt8 := p.hdr.bytes ++ p.data

@[simp] theorem NwcPackage.bytes_length (p : NwcPackage) :
    p.bytes.length = qosHdrLen + p.data.length := by
  rw [NwcPackage.bytes, List.length_append, NwcQosHdr.bytes_length]

/-- A package whose length field is right is a frame of the stream. -/
theorem NwcPackage.isFrame {p : NwcPackage} (h : p.hdr.length.toNat = p.data.length) :
    qosFormat.IsFrame p.bytes := by
  refine ⟨?_, ?_⟩
  · rw [qosFormat_hdrLen, NwcPackage.bytes_length]
    omega
  · rw [qosFormat_frameLen, NwcPackage.bytes_length, NwcPackage.bytes, NwcQosHdr.ofBytes_bytes, h]

/-- `struct nwc_package_entry`: a package in the sent queue. -/
structure NwcPackageEntry where
  message : NwcPackage
  flag : Int
  deriving DecidableEq, Repr

/-! ## State of the protocol -/

/-- `struct nwc_qos_protocol`. The intrusive `sent_queue` is the list of its entries. -/
structure NwcQosProtocol where
  rtt : ℚ
  lossPackagesPerSecs : UInt32
  sentPackagesPerSecs : UInt32
  jitter : ℚ
  sentBytes : UInt32
  sendBandwidth : UInt32
  lastStatTs : UInt32
  statInterval : Int
  sentQueue : List NwcPackageEntry
  deriving DecidableEq

/-- `nwc_qos_init`. It leaves `send_bandwidth` as it finds it. -/
def nwcQosInit (sendBandwidth : UInt32) : NwcQosProtocol where
  rtt := 0
  lossPackagesPerSecs := 0
  sentPackagesPerSecs := 0
  jitter := 0
  sentBytes := 0
  sendBandwidth := sendBandwidth
  lastStatTs := 0
  statInterval := 1000
  sentQueue := []

/-- `"ping"` and the byte `pkg->data[4] = 0`. -/
def pingData : List UInt8 := [0x70, 0x69, 0x6E, 0x67, 0]

/-- `"pong"`. -/
def pongData : List UInt8 := [0x70, 0x6F, 0x6E, 0x67]

/--
`nwc_qos_create_package`. The block is what `malloc` returned: the timestamp and the payload
after `"ping"` keep what was there.
-/
def nwcQosCreatePackage (qos : NwcQosProtocol) (pkglen : UInt32)
    (block : Block (qosHdrLen + pkglen.toNat)) : NwcQosProtocol × NwcPackage :=
  let pkg : NwcPackage :=
    { hdr :=
        { timestamp := (NwcQosHdr.ofBytes block.bytes).timestamp
          ackTimestamp := 0
          recvDelay := 0
          length := pkglen }
      data := pingData ++ block.bytes.drop (qosHdrLen + pingData.length) }
  ({ qos with
      sentQueue := qos.sentQueue ++ [{ message := pkg, flag := 0 }]
      sentPackagesPerSecs := qos.sentPackagesPerSecs + 1
      sentBytes := qos.sentBytes + (UInt32.ofNat qosHdrLen + pkglen) }, pkg)

/-- `pkg->timestamp = now` for the package just created: the queue holds a pointer to it. -/
def NwcQosProtocol.stampLast (qos : NwcQosProtocol) (now : UInt32) : NwcQosProtocol :=
  { qos with
    sentQueue :=
      match qos.sentQueue.getLast? with
      | some e =>
        qos.sentQueue.dropLast
          ++ [{ e with
                message := { e.message with hdr := { e.message.hdr with timestamp := now } } }]
      | none => [] }

/-- `nwc_qos_create_ack_package`. The timestamp is the `stale` word that `malloc` left there. -/
def nwcQosCreateAckPackage (ackTs stale : UInt32) : NwcPackage where
  hdr :=
    { timestamp := stale
      ackTimestamp := ackTs
      recvDelay := 0
      length := 4 }
  data := pongData

/-- `nwc_qos_get_pkg_entry`: the oldest entry with that timestamp. -/
def nwcQosGetPkgEntry (queue : List NwcPackageEntry) (ackTs : UInt32) : Option NwcPackageEntry :=
  queue.find? (fun e => e.message.hdr.timestamp == ackTs)

/-- `rtt_sample`: the two words are doubles before they are subtracted. -/
def rttSample (round : ℚ → ℚ) (pkg : NwcQosHdr) (recvTs : UInt32) : ℚ :=
  round (((recvTs - pkg.ackTimestamp).toNat : ℚ) - (pkg.recvDelay.toNat : ℚ))

/-- `estimate * 0.875 + sample * 0.125`: two products and a sum, each rounded. -/
def smoothed (round : ℚ → ℚ) (estimate sample : ℚ) : ℚ :=
  round (round (estimate * (7 / 8)) + round (sample * (1 / 8)))

-- The double stays below 46 ms where the exact estimate has passed it.
example :
    let samples : List ℚ := [55, 49, 50, 50, 52, 54, 52, 49, 49, 49, 54, 49, 54, 49, 54, 52, 48, 48]
    samples.foldl (smoothed Doubles.roundDouble) 0 < 46 ∧ 46 < samples.foldl (smoothed id) 0 := by
  decide +kernel

/-- `nwc_qos_process_package`: update the estimators from an ack and forget its package. -/
def nwcQosProcessPackage (round : ℚ → ℚ) (qos : NwcQosProtocol) (pkg : NwcQosHdr)
    (recvTs : UInt32) : NwcQosProtocol :=
  if pkg.ackTimestamp = 0 then qos
  else
    match nwcQosGetPkgEntry qos.sentQueue pkg.ackTimestamp with
    | none => qos
    | some _ =>
      let sample := rttSample round pkg recvTs
      let rtt := smoothed round qos.rtt sample
      { qos with
        rtt := rtt
        jitter := smoothed round qos.jitter (round (sample - rtt))
        sentQueue := qos.sentQueue.eraseP (fun e => e.message.hdr.timestamp == pkg.ackTimestamp) }

/-- The line that `nwc_qos_stat` prints. The loss rate is `lost / sent / secs`. -/
structure NwcQosReport where
  bandwidth : UInt32
  rtt : ℚ
  jitter : ℚ
  lost : UInt32
  sent : UInt32
  secs : Int
  deriving DecidableEq

/-- `nwc_qos_stat`: count overdue packages as lost, and report once an interval. -/
def nwcQosStat (qos : NwcQosProtocol) (nowms : UInt32) : NwcQosProtocol × Option NwcQosReport :=
  if qos.lastStatTs = 0 then ({ qos with lastStatTs := nowms }, none)
  else
    let overdue (e : NwcPackageEntry) : Bool :=
      decide (qos.rtt < ((nowms - e.message.hdr.timestamp).toNat : ℚ))
    let lost := qos.lossPackagesPerSecs + UInt32.ofNat (qos.sentQueue.countP overdue)
    let queue := qos.sentQueue.filter (fun e => !overdue e)
    if qos.statInterval ≤ i32 (nowms - qos.lastStatTs).toNat then
      let secs := qos.statInterval.tdiv 1000
      ({ qos with
          sentQueue := queue
          sentBytes := 0
          lossPackagesPerSecs := 0
          sentPackagesPerSecs := 0
          lastStatTs := nowms },
        some
          { bandwidth := qos.sentBytes * 8 / UInt32.ofNat (u32 secs)
            rtt := qos.rtt
            jitter := qos.jitter
            lost := lost
            sent := qos.sentPackagesPerSecs
            secs := secs })
    else ({ qos with sentQueue := queue, lossPackagesPerSecs := lost }, none)

/-! ## What the statistics change -/

theorem stat_rtt (qos : NwcQosProtocol) (now : UInt32) : (nwcQosStat qos now).1.rtt = qos.rtt := by
  unfold nwcQosStat
  split
  · rfl
  · dsimp only
    split
    · rfl
    · rfl

/-- The statistics leave the bandwidth alone. -/
theorem stat_sendBandwidth (qos : NwcQosProtocol) (now : UInt32) :
    (nwcQosStat qos now).1.sendBandwidth = qos.sendBandwidth := by
  unfold nwcQosStat
  split
  · rfl
  · dsimp only
    split
    · rfl
    · rfl

/-- The queue after the statistics: the first call leaves it alone. -/
theorem stat_sentQueue (qos : NwcQosProtocol) (now : UInt32) :
    (nwcQosStat qos now).1.sentQueue
      = if qos.lastStatTs = 0 then qos.sentQueue
        else qos.sentQueue.filter fun e =>
          !decide (qos.rtt < ((now - e.message.hdr.timestamp).toNat : ℚ)) := by
  unfold nwcQosStat
  split
  · rfl
  · dsimp only
    split
    · rfl
    · rfl

/-- The statistics take packages out, and put none in. -/
theorem stat_sentQueue_sublist (qos : NwcQosProtocol) (now : UInt32) :
    (nwcQosStat qos now).1.sentQueue.Sublist qos.sentQueue := by
  rw [stat_sentQueue]
  split
  · exact List.Sublist.refl _
  · exact List.filter_sublist

end Nwchecker
