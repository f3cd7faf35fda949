import Nwchecker.Qos.Protocol
import Nwchecker.Tcp.Handler

/-!
# A connection and what it stands on

`struct nwc_connection` (`nwc_connection.h`), together with its io handler and the socket below
the handler. The socket keeps what the program got from it and gave to it, so that a statement about
the bytes of the stream is one about the state.
-/

namespace Nwchecker

open Words

/-! ## The receive buffer -/

/-- `RECV_BUFFER_LEN` -/
def RECV_BUFFER_LEN : Nat := 4096

/-- `uint8_t recv_buff[RECV_BUFFER_LEN]` -/
structure RecvBuffer where
  bytes : List UInt8
  size : bytes.length = RECV_BUFFER_LEN

namespace RecvBuffer

/-- The `n` bytes from the offset `off` on, as far as the buffer reaches. -/
def window (b : RecvBuffer) (off n : Nat) : List UInt8 := (b.bytes.drop off).take n

/-- `recv` puts `data` at the offset `off`. The kernel does not write past what it was given. -/
def store (b : RecvBuffer) (off : Nat) (data : List UInt8) : RecvBuffer :=
  if h : off + data.length ≤ RECV_BUFFER_LEN then
    { bytes := b.bytes.take off ++ data ++ b.bytes.drop (off + data.length)
      size := by
        simp only [List.length_append, List.length_take, List.length_drop, b.size]
        omega }
  else b

/-- `*(struct nwc_qos_hdr*)(recv_buff + off)`; `none` when it is not inside the buffer. -/
def hdrAt (b : RecvBuffer) (off : Nat) : Option NwcQosHdr :=
  if off + qosHdrLen ≤ RECV_BUFFER_LEN then some (NwcQosHdr.ofBytes (b.window off qosHdrLen))
  else none

/-- `memmove(recv_buff, recv_buff + src, n)` -/
def moveFront (b : RecvBuffer) (src n : Nat) (h : src + n ≤ RECV_BUFFER_LEN) : RecvBuffer where
  bytes := b.window src n ++ b.bytes.drop n
  size := by
    simp only [window, List.length_append, List.length_take, List.length_drop, b.size]
    omega

/-- A buffer of zero bytes. -/
def zero : RecvBuffer where
  bytes := List.replicate RECV_BUFFER_LEN 0
  size := List.length_replicate

theorem window_length {b : RecvBuffer} {off n : Nat} (h : off + n ≤ RECV_BUFFER_LEN) :
    (b.window off n).length = n := by
  simp only [window, List.length_take, List.length_drop, b.size]
  omega

/-- A window cut shorter or further on is a window. -/
theorem window_drop {b : RecvBuffer} {off n k : Nat} :
    (b.window off n).drop k = b.window (off + k) (n - k) := by
  rw [window, window, List.drop_take, List.drop_drop]

theorem window_take {b : RecvBuffer} {off n k : Nat} (h : k ≤ n) :
    (b.window off n).take k = b.window off k := by
  rw [window, window, List.take_take, Nat.min_eq_left h]

/-- After `recv` the buffer starts with the old bytes and the new ones. -/
theorem store_window {b : RecvBuffer} {off : Nat} {data : List UInt8}
    (h : off + data.length ≤ RECV_BUFFER_LEN) :
    (b.store off data).window 0 (off + data.length) = b.window 0 off ++ data := by
  have hoff : (b.bytes.take off).length = off := by
    simp only [List.length_take, b.size]
    omega
  have hlen : (b.bytes.take off ++ data).length = off + data.length := by
    rw [List.length_append, hoff]
  rw [store, dif_pos h, window, window, List.drop_zero, List.drop_zero]
  exact List.take_left' hlen

theorem moveFront_window {b : RecvBuffer} {src n : Nat} (h : src + n ≤ RECV_BUFFER_LEN) :
    (b.moveFront src n h).window 0 n = b.window src n := by
  rw [window, List.drop_zero]
  exact List.take_left' (window_length h)

/-- The header at the front of a long enough window. -/
theorem hdrAt_eq {b : RecvBuffer} {off n : Nat} (hn : qosHdrLen ≤ n)
    (h : off + n ≤ RECV_BUFFER_LEN) :
    b.hdrAt off = some (NwcQosHdr.ofBytes (b.window off n)) := by
  rw [hdrAt, if_pos (by omega), ← window_take hn, NwcQosHdr.ofBytes_take (Nat.le_refl _)]

end RecvBuffer

/-! ## The connection -/

/--
`struct nwc_connection` without its handles. `rbytes` bytes at the front of `recv_buff` wait for
the rest of their package; there are never more of them than the buffer holds.
-/
structure NwcConnection where
  mode : Mode
  qos : NwcQosProtocol
  recvBuff : RecvBuffer
  rbytes : Nat
  rbytes_le : rbytes ≤ RECV_BUFFER_LEN

/--
`nwc_connection_init`. `bandwidth` is `cfg->bandwidth`, an `int` in bits per second. `malloc` left
`recv_buff` and, for a server, `send_bandwidth` as they were.
-/
def nwcConnectionInit (mode : Mode) (bandwidth : Int) (recvBuff : RecvBuffer) (stale : UInt32) :
    NwcConnection where
  mode := mode
  qos :=
    nwcQosInit
      (match mode with
      | .client =>
        let bd := u32 bandwidth
        let bd := if bd = 0 then 125000 else bd / 8
        UInt32.ofNat ((bd + 19) / 20)
      | .server => stale)
  recvBuff := recvBuff
  rbytes := 0
  rbytes_le := Nat.zero_le _

/-- The bytes that wait in the buffer. -/
def NwcConnection.leftover (c : NwcConnection) : List UInt8 := c.recvBuff.window 0 c.rbytes

@[simp] theorem NwcConnection.leftover_length (c : NwcConnection) :
    c.leftover.length = c.rbytes :=
  RecvBuffer.window_length (by have := c.rbytes_le; omega)

/-- One call of `send`: the buffer offered and the result. -/
structure SendRecord where
  buffer : List UInt8
  rc : Int
  deriving DecidableEq, Repr

/-- The bytes of the buffer that the transport took. -/
def SendRecord.taken (r : SendRecord) : List UInt8 := r.buffer.take r.rc.toNat

/-- The transport took the whole buffer. -/
def SendRecord.Full (r : SendRecord) : Prop := r.rc = r.buffer.length

instance (r : SendRecord) : Decidable r.Full := inferInstanceAs (Decidable (_ = _))

theorem SendRecord.Full.taken_eq {r : SendRecord} (h : r.Full) : r.taken = r.buffer := by
  rw [taken, h]
  simp

/-- The stream socket of a connection: what it delivered and what it was offered, in order. -/
structure Socket where
  recvs : List (List UInt8)
  sends : List SendRecord
  deriving DecidableEq, Repr

/-- All bytes that `recv` has handed out so far. -/
def Socket.delivered (s : Socket) : List UInt8 := s.recvs.flatten

/-- All bytes that `send` has taken so far. -/
def Socket.accepted (s : Socket) : List UInt8 := (s.sends.map SendRecord.taken).flatten

@[simp] theorem Socket.delivered_snoc (s : Socket) (data : List UInt8) :
    Socket.delivered { s with recvs := s.recvs ++ [data] } = s.delivered ++ data := by
  simp [Socket.delivered]

/--
A connection with its handler and socket. `handed` lists the packages that the receive path has
processed, each as the bytes from its first header byte to its last payload byte.
-/
structure Session where
  conn : NwcConnection
  io : NwcTcpHandler
  sock : Socket
  handed : List (List UInt8)

/-- A connection that has not transferred anything yet. -/
def Session.opened (conn : NwcConnection) (io : NwcTcpHandler) : Session where
  conn := conn
  io := io
  sock := { recvs := [], sends := [] }
  handed := []

/-- A new connection with default bandwidth on an established handler, in a zeroed buffer. -/
def Session.sample (mode : Mode) : Session :=
  Session.opened (nwcConnectionInit mode 0 RecvBuffer.zero 0)
    { nwcTcpHandlerInit true with state := .established }

/-- `nwc_connection_close`, as far as the handler goes. -/
def nwcConnectionClose (s : Session) : Session := { s with io := nwcTcpHandlerClose s.io }

/-- How a callback of a connection ends. -/
inductive Outcome where
  /-- It returned and the connection is still there. -/
  | returned (rc : Int) (s : Session)
  /-- It called `nwc_connection_close`. -/
  | closed (rc : Int) (s : Session)
  /-- The inputs are used up and it is still in its loop. -/
  | inLoop (s : Session)
  /-- It followed a pointer out of the receive buffer. -/
  | wild (s : Session)

/-- The session as the callback left it, or as it is now when the callback is not done. -/
def Outcome.session : Outcome → Session
  | .returned _ s => s
  | .closed _ s => s
  | .inLoop s => s
  | .wild s => s

/--
`send` on the session's socket through `nwc_io_send`. The handler may lose its `can_send`, and
the socket takes the front of the buffer.
-/
def nwcIoSend (s : Session) (buffer : List UInt8) (call : SysCall Nat) : Int × Session :=
  let r := nwcTcpHandlerSend s.io call
  (r.1,
    { s with
      io := r.2
      sock := { s.sock with sends := s.sock.sends ++ [{ buffer := buffer, rc := r.1 }] } })

@[simp] theorem nwcIoSend_rc (s : Session) (buffer : List UInt8) (call : SysCall Nat) :
    (nwcIoSend s buffer call).1 = nwcTcpHandlerSendRc call := by
  rw [nwcIoSend, nwcTcpHandlerSend_eq]

/-- What a send leaves behind. -/
theorem nwcIoSend_session (s : Session) (buffer : List UInt8) (call : SysCall Nat) :
    (nwcIoSend s buffer call).2
      = { s with
          io := { s.io with canSend := s.io.canSend && nwcTcpHandlerSendRc call != -EAGAIN }
          sock :=
            { s.sock with
              sends :=
                s.sock.sends ++ [{ buffer := buffer, rc := nwcTcpHandlerSendRc call }] } } := by
  rw [nwcIoSend, nwcTcpHandlerSend_eq]

end Nwchecker
