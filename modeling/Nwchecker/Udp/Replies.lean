import Nwchecker.Udp.Accept

/-!
# What an ack of the UDP server gives away

`nwc_connection_udp_accept` reads the timestamp of a package from its receive buffer, which is on
the stack and not cleared, and sends it back in `ack_timestamp`. `udpAccept_reply_eq` says what the
reply is made of: the first four bytes of the buffer, and the clock.

A datagram of one to three bytes leaves some of the four as they were. Unlike
`nwc_connection_on_recv`, which waits for a whole header, the function looks at no length beyond
`rc <= 0`.
-/

namespace Nwchecker

open Words

/-! ## The buffer after `recvfrom` -/

/-- The datagram, and behind it what was there. -/
theorem RecvBuffer.store_front {b : RecvBuffer} {data : List UInt8}
    (h : data.length ≤ RECV_BUFFER_LEN) :
    (b.store 0 data).bytes = data ++ b.bytes.drop data.length := by
  rw [store, dif_pos (by omega)]
  simp

/-- The word at the front of the buffer. -/
theorem RecvBuffer.leWord_store {b : RecvBuffer} {data : List UInt8}
    (h : data.length ≤ RECV_BUFFER_LEN) :
    (NwcQosHdr.ofBytes ((b.store 0 data).window 0 qosHdrLen)).timestamp
      = leWord (data ++ b.bytes.drop data.length) := by
  rw [window, List.drop_zero, NwcQosHdr.ofBytes_take (Nat.le_refl _), store_front h]
  rfl

/-- The highest byte of a word. -/
theorem leWord_highest (l : List UInt8) :
    (leWord l).toNat / 0x1000000 = (l.getD 3 0).toNat := by
  have h0 := UInt8.toNat_lt (l.getD 0 0)
  have h1 := UInt8.toNat_lt (l.getD 1 0)
  have h2 := UInt8.toNat_lt (l.getD 2 0)
  have h3 := UInt8.toNat_lt (l.getD 3 0)
  rw [leWord, UInt32.toNat_ofNat']
  omega

/-- A buffer that holds the same byte everywhere. -/
def RecvBuffer.filled (b : UInt8) : RecvBuffer where
  bytes := List.replicate RECV_BUFFER_LEN b
  size := List.length_replicate

/-- Behind a short datagram the word at the front has a byte of the old buffer. -/
theorem RecvBuffer.filled_highest {data : List UInt8} (b : UInt8) (h : data.length < 4) :
    (leWord (data ++ (filled b).bytes.drop data.length)).toNat / 0x1000000 = b.toNat := by
  have hin : 3 - data.length < RECV_BUFFER_LEN - data.length := by
    unfold RECV_BUFFER_LEN
    omega
  rw [leWord_highest, List.getD_eq_getElem?_getD, List.getElem?_append_right (by omega), filled,
    List.drop_replicate, List.getElem?_replicate, if_pos hin]
  rfl

/-! ## The reply -/

/-- The ack for the timestamp `ackTs`, made at `now`. -/
def ackReply (ackTs now : UInt32) : List UInt8 :=
  NwcPackage.bytes
    { hdr := { timestamp := now, ackTimestamp := ackTs, recvDelay := 0, length := 4 }
      data := pongData }

/-- Its timestamp can be read off. -/
theorem ackReply_ackTimestamp (ackTs now : UInt32) :
    (NwcQosHdr.ofBytes (ackReply ackTs now)).ackTimestamp = ackTs := by
  rw [ackReply, NwcPackage.bytes, NwcQosHdr.ofBytes_bytes]

/-- **What a reply is made of.** -/
theorem udpAccept_reply_eq (s : UdpServer) {call : SysCall (List UInt8)} {datagram : List UInt8}
    (source : SockAddr) (env : AcceptEnv) (hcall : call.final = .ok datagram)
    (hpos : 1 ≤ datagram.length) (hfits : datagram.length ≤ RECV_BUFFER_LEN) :
    (nwcConnectionUdpAccept s call source env).2
      = some
          { buffer :=
              ackReply (leWord (datagram ++ env.recvBuff.bytes.drop datagram.length)) env.now
            rc := nwcUdpHandlerSendto env.call } := by
  have hrecv : nwcUdpHandlerRecvfrom RECV_BUFFER_LEN call
      = ((datagram.length : Int), datagram) := by
    rcases nwcUdpHandlerRecv_final RECV_BUFFER_LEN call with ⟨d, hd, heq⟩ | ⟨errno, hd, -⟩
    · rw [hcall] at hd
      cases hd
      rw [List.take_of_length_le hfits] at heq
      exact heq
    · rw [hcall] at hd
      cases hd
  unfold nwcConnectionUdpAccept
  rw [hrecv]
  dsimp only
  rw [if_neg (by omega)]
  simp only [udpAckPackage, nwcQosCreateAckPackage, RecvBuffer.leWord_store hfits]
  rfl

/-- Two runs that differ in what `recvbuff` held at the start send the same reply. -/
def SameReply (datagram : List UInt8) : Prop :=
  ∀ s source env recvBuff, ∀ call : SysCall (List UInt8), call.final = .ok datagram →
    (nwcConnectionUdpAccept s call source { env with recvBuff := recvBuff }).2
      = (nwcConnectionUdpAccept s call source env).2

/-- The answers of the system around a buffer that held `recvBuff`. -/
def AcceptEnv.sample (recvBuff : RecvBuffer) : AcceptEnv where
  recvBuff := recvBuff
  connBuff := RecvBuffer.zero
  connBandwidth := 0
  stale := 0
  now := 1000
  call := .done 20

/--
**A reply gives nothing away exactly when the datagram has the four bytes of a timestamp.**

With four bytes or more the reply is a function of the datagram and the clock, whatever the server,
the answers of the system and the uninitialised memory are.
-/
theorem sameReply_iff {datagram : List UInt8} (hpos : 1 ≤ datagram.length)
    (hfits : datagram.length ≤ RECV_BUFFER_LEN) :
    (SameReply datagram ↔ 4 ≤ datagram.length) ∧
      (4 ≤ datagram.length → ∀ s source env, ∀ call : SysCall (List UInt8),
        call.final = .ok datagram → (nwcConnectionUdpAccept s call source env).2.map
          SendRecord.buffer = some (ackReply (leWord datagram) env.now)) := by
  have hfront : 4 ≤ datagram.length → ∀ tail : List UInt8,
      leWord (datagram ++ tail) = leWord datagram := by
    intro h4 tail
    rw [← leWord_take (Nat.le_refl 4), List.take_append_of_le_length h4,
      leWord_take (Nat.le_refl 4)]
  refine ⟨⟨fun hsame => ?_, fun h4 s source env recvBuff call hcall => ?_⟩,
    fun h4 s source env call hcall => ?_⟩
  · by_contra hshort
    have hboth := hsame { io := nwcUdpHandlerInit true, bandwidth := 0, connHdr := [] }
      { port := 0, addr := 0 } (.sample (.filled 0)) (.filled 255) (.done datagram) rfl
    rw [udpAccept_reply_eq _ _ _ rfl hpos hfits, udpAccept_reply_eq _ _ _ rfl hpos hfits,
      Option.some.injEq, SendRecord.mk.injEq] at hboth
    have hword : leWord (datagram ++ (RecvBuffer.filled 255).bytes.drop datagram.length)
        = leWord (datagram ++ (RecvBuffer.filled 0).bytes.drop datagram.length) := by
      have hstamp := congrArg (fun l => (NwcQosHdr.ofBytes l).ackTimestamp) hboth.1
      simp only [ackReply_ackTimestamp] at hstamp
      exact hstamp
    have hhigh : (leWord (datagram ++ (RecvBuffer.filled 255).bytes.drop datagram.length)).toNat
        / 0x1000000 = 255 := RecvBuffer.filled_highest 255 (by omega)
    rw [hword, RecvBuffer.filled_highest 0 (by omega)] at hhigh
    exact absurd hhigh (by decide)
  · rw [udpAccept_reply_eq s source _ hcall hpos hfits,
      udpAccept_reply_eq s source _ hcall hpos hfits, hfront h4, hfront h4]
  · rw [udpAccept_reply_eq s source env hcall hpos hfits, hfront h4]
    rfl

/-- A package of twenty bytes. -/
theorem ping_sameReply : SameReply (List.replicate 20 7) :=
  (sameReply_iff (by decide) (by decide)).1.mpr (by decide)

/-- The byte of a datagram comes back with three bytes of the stack. -/
theorem oneByte_not_sameReply : ¬SameReply [7] := by
  intro h
  have hboth := h { io := nwcUdpHandlerInit true, bandwidth := 0, connHdr := [] }
    { port := 0, addr := 0 } (.sample (.filled 0)) (.filled 255) (.done [7]) rfl
  exact absurd hboth (by decide +kernel)

end Nwchecker
