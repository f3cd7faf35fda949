import Nwchecker.Connection.Session
import Nwchecker.Udp.Handler

/-!
# The UDP server

`nwc_connection_udp_accept` of `nwc_connection.c`, which `nwc_server_accept` calls for every
datagram: look the sender up in `conn_hdr`, or add a connection for it, and answer with an ack.

The server does not look at what a datagram holds beyond the first header, and its receive buffer
is not cleared, so that a short datagram is read with whatever lies behind it.
-/

namespace Nwchecker

/-- A connection in `conn_hdr`, with its `cliaddr`. -/
structure UdpPeer where
  conn : NwcConnection
  cliaddr : SockAddr

/-- The socket of the server, `cfg->bandwidth` and `conn_hdr`. -/
structure UdpServer where
  io : NwcUdpHandler
  bandwidth : Int
  connHdr : List UdpPeer

/-- `get_nwc_connection` -/
def getNwcConnection (head : List UdpPeer) (addr : SockAddr) : Option UdpPeer :=
  head.find? fun p => p.cliaddr.port == addr.port && p.cliaddr.addr == addr.addr

/-- What the outside answers besides `recvfrom`: memory that is not cleared, the clock, `sendto`. -/
structure AcceptEnv where
  /-- `recvbuff` on the stack. -/
  recvBuff : RecvBuffer
  /-- The block of a new connection. -/
  connBuff : RecvBuffer
  connBandwidth : UInt32
  /-- The timestamp in the block of the ack. -/
  stale : UInt32
  now : UInt32
  call : SysCall Nat

/-- The ack for a package with the header `pkg`. -/
def udpAckPackage (pkg : NwcQosHdr) (env : AcceptEnv) : NwcPackage :=
  let ack := nwcQosCreateAckPackage pkg.timestamp env.stale
  { ack with hdr := { ack.hdr with recvDelay := 0, timestamp := env.now } }

/--
`nwc_connection_udp_accept`: the server afterwards, and the call of `sendto` if there is one.
`source` is the address that `recvfrom` fills in.
-/
def nwcConnectionUdpAccept (s : UdpServer) (call : SysCall (List UInt8)) (source : SockAddr)
    (env : AcceptEnv) : UdpServer × Option SendRecord :=
  let r := nwcUdpHandlerRecvfrom RECV_BUFFER_LEN call
  if r.1 ≤ 0 then (s, none)
  else
    let recvBuff := env.recvBuff.store 0 r.2
    let connHdr :=
      match getNwcConnection s.connHdr source with
      | some _ => s.connHdr
      | none =>
        s.connHdr ++
          [{ conn := nwcConnectionInit .server s.bandwidth env.connBuff env.connBandwidth
             cliaddr := source }]
    let pkg := NwcQosHdr.ofBytes (recvBuff.window 0 qosHdrLen)
    ({ s with connHdr := connHdr },
      some { buffer := (udpAckPackage pkg env).bytes, rc := nwcUdpHandlerSendto env.call })

/-- An ack is a package of its own. -/
theorem udpAckPackage_isFrame (pkg : NwcQosHdr) (env : AcceptEnv) :
    qosFormat.IsFrame (udpAckPackage pkg env).bytes := NwcPackage.isFrame rfl

theorem udpAckPackage_length (pkg : NwcQosHdr) (env : AcceptEnv) :
    (udpAckPackage pkg env).bytes.length = 20 := NwcPackage.bytes_length _

/-- Whatever a datagram holds, its answer is an ack. -/
theorem udpAccept_reply {s : UdpServer} {call : SysCall (List UInt8)} {source : SockAddr}
    {env : AcceptEnv} {r : SendRecord}
    (h : (nwcConnectionUdpAccept s call source env).2 = some r) :
    ∃ pkg, r.buffer = (udpAckPackage pkg env).bytes := by
  unfold nwcConnectionUdpAccept at h
  dsimp only at h
  split at h
  · cases h
  · cases h
    exact ⟨_, rfl⟩

end Nwchecker
