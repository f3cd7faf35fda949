import Nwchecker.Lib.Postal
import Nwchecker.UnixIo.LoadClient

/-!
# Ping over UDP

`nwc_udp_client.c` and `nwc_udp_server.c`: any number of clients, the server, and a network between
them that loses, copies and reorders datagrams. A client waits in `recvfrom` for its pong before it
sends the next ping, without a timeout.
-/

namespace Nwchecker.UnixIo

open Machine Postal

/-- `strlen(pong)` bytes. -/
def pong : List UInt8 := [0x70, 0x6F, 0x6E, 0x67]

structure UdpDatagram where
  src : SockAddr
  dst : SockAddr
  data : List UInt8
  deriving DecidableEq, Repr

/-- `struct nwc_args`, as far as the UDP programs use it. -/
structure UdpArgs extends LoadArgs where
  echoMode : Int32
  isUdpConnect : Bool
  deriving DecidableEq, Repr

/-! ## The client -/

/-- `nwc_udp_client`, in front of `sendto` or in `recvfrom`. -/
structure NwcUdpClient where
  /-- What the system has given to its socket. -/
  addr : SockAddr
  echoMode : Int32
  connected : Bool
  sendMsg : List UInt8
  slotSendCount : Int32
  infinit : Bool
  loopCount : Int32
  curSlotSent : Int32
  /-- The destination of the next ping. -/
  destaddr : SockAddr
  recvBuffer : List UInt8
  receiving : Bool
  ended : Option Ending
  /-- The calls of `sendto` and `recvfrom` that succeeded, and those of `usleep`. -/
  pings : Nat
  pongs : Nat
  sleeps : Nat
  deriving DecidableEq, Repr

namespace NwcUdpClient

/-- In front of the loop. The message is what `alloc_buffer` returns. -/
def start (na : UdpArgs) (addr server : SockAddr) (sendMsg : List UInt8) : NwcUdpClient where
  addr := addr
  echoMode := na.echoMode
  connected := na.isUdpConnect
  sendMsg := sendMsg
  slotSendCount := na.slotSendCount
  infinit := na.infinit
  loopCount := na.count * na.slotSendCount
  curSlotSent := na.slotSendCount
  destaddr := server
  recvBuffer := List.replicate 8 0
  receiving := false
  ended := none
  pings := 0
  pongs := 0
  sleeps := 0

/-- `cur_slot_sent--`, and `usleep` when the slot is used up. -/
def pace (c : NwcUdpClient) : NwcUdpClient :=
  let c := { c with curSlotSent := c.curSlotSent - 1 }
  if c.curSlotSent = 0 then { c with sleeps := c.sleeps + 1, curSlotSent := c.slotSendCount }
  else c

/-- The end of a pass, from `if (!infinit)` on. -/
def countDown (c : NwcUdpClient) : NwcUdpClient :=
  if c.infinit then c.pace
  else
    let c := { c with loopCount := c.loopCount - 1 }
    if c.loopCount = 0 then { c with ended := some .counted } else c.pace

/-- `break` -/
def leave (c : NwcUdpClient) : NwcUdpClient := { c with ended := some .broken }

/-- After a `sendto` that succeeded. -/
def sentPing (c : NwcUdpClient) : NwcUdpClient :=
  let c := { c with pings := c.pings + 1 }
  if c.echoMode ≠ 2 then { c with receiving := true } else c.countDown

/-- `recvfrom` has written the datagram over `recv_buffer`, and its source over `destaddr`. -/
def received (c : NwcUdpClient) (d : UdpDatagram) : NwcUdpClient :=
  { c with
    receiving := false
    pongs := c.pongs + 1
    recvBuffer := d.data.take 7 ++ c.recvBuffer.drop (d.data.take 7).length
    destaddr := if c.connected then c.destaddr else d.src }

def recvPong (c : NwcUdpClient) (d : UdpDatagram) : NwcUdpClient :=
  if d.data.take 7 = [] then (c.received d).leave else (c.received d).countDown

/-- The ping that it sends. -/
def ping (c : NwcUdpClient) : UdpDatagram := { src := c.addr, dst := c.destaddr, data := c.sendMsg }

/-- A datagram that the system hands to its `recvfrom`. -/
def Takes (c : NwcUdpClient) (d : UdpDatagram) : Prop :=
  c.ended = none ∧ c.receiving = true ∧ d.dst = c.addr ∧ (c.connected → d.src = c.destaddr)

instance (c : NwcUdpClient) (d : UdpDatagram) : Decidable (c.Takes d) :=
  inferInstanceAs (Decidable (_ ∧ _ ∧ _ ∧ _))

end NwcUdpClient

/-! ## The server -/

/-- `nwc_udp_server` at the top of its loop. -/
structure NwcUdpServer where
  addr : SockAddr
  echoMode : Int32
  clientAddr : SockAddr
  /-- The addresses of the connections that hang on `nwc_hdr`. -/
  nwcHdr : List SockAddr
  deriving DecidableEq, Repr

namespace NwcUdpServer

def start (addr : SockAddr) (echoMode : Int32) : NwcUdpServer where
  addr := addr
  echoMode := echoMode
  clientAddr := { port := 0, addr := 0 }
  nwcHdr := []

/-- `get_nwc_connection`, and a new connection if there is none. -/
def register (s : NwcUdpServer) : NwcUdpServer :=
  if s.clientAddr ∈ s.nwcHdr then s else { s with nwcHdr := s.nwcHdr ++ [s.clientAddr] }

/-- What `sendto` sends. -/
def reply (s : NwcUdpServer) : UdpDatagram := { src := s.addr, dst := s.clientAddr, data := pong }

/-- From `if (echo_mode != 2)` on: the datagram that is sent, if any. -/
def answer (s : NwcUdpServer) (sends : Bool) : Option UdpDatagram × NwcUdpServer :=
  if s.echoMode ≠ 2 then if sends then (some s.reply, s.register) else (none, s)
  else (none, s.register)

end NwcUdpServer

/-! ## All of them -/

structure UdpPing where
  server : NwcUdpServer
  clients : List NwcUdpClient
  net : Network UdpDatagram
  deriving DecidableEq, Repr

namespace UdpPing

/-- The clients are started with their arguments, addresses and messages. -/
def start (server : SockAddr) (echoMode : Int32) (args : List (UdpArgs × SockAddr × List UInt8)) :
    UdpPing where
  server := .start server echoMode
  clients := args.map fun a => .start a.1 a.2.1 server a.2.2
  net := .empty

inductive Event where
  /-- The client `i` calls `sendto`. -/
  | ping (i : Nat) (sends : Bool)
  /-- The server receives the datagram `k`, and then may call `sendto`. -/
  | serve (k : Nat) (sends : Bool)
  /-- A pass of the server that does not receive. -/
  | volley (sends : Bool)
  /-- The client `i` receives the datagram `k`. -/
  | pong (k i : Nat)
  /-- `recvfrom` returns `-1` to the client `i`. -/
  | fails (i : Nat)
  | lose (k : Nat)
  | copy (k : Nat)
  deriving DecidableEq, Repr

def setClient (s : UdpPing) (i : Nat) (c : NwcUdpClient) : UdpPing :=
  { s with clients := s.clients.set i c }

/-- After the server has answered the datagram `k`, which is `d`, or not. A ping that it does not
answer counts as lost. -/
def served (s : UdpPing) (k : Nat) (d : UdpDatagram) (sends : Bool) : UdpPing :=
  let r := { s.server with clientAddr := d.src }.answer sends
  { s with
    server := r.2
    net := match r.1 with
      | some reply => (s.net.took k).send reply
      | none => s.net.lose k d }

def step (s : UdpPing) : Event → Option UdpPing
  | .ping i sends =>
    match s.clients[i]? with
    | some c =>
      if c.ended = none ∧ c.receiving = false then
        if sends then some { s.setClient i c.sentPing with net := s.net.send c.ping }
        else some (s.setClient i c.leave)
      else none
    | none => none
  | .serve k sends =>
    match s.net.flying[k]? with
    | some d =>
      if s.server.echoMode ≠ 3 ∧ d.dst = s.server.addr then some (s.served k d sends) else none
    | none => none
  | .volley sends =>
    if s.server.echoMode = 3 then
      let r := s.server.answer sends
      some
        { s with
          server := r.2
          net := match r.1 with
            | some reply => s.net.spawn reply
            | none => s.net }
    else none
  | .pong k i =>
    match s.net.flying[k]?, s.clients[i]? with
    | some d, some c =>
      if c.Takes d then some { s.setClient i (c.recvPong d) with net := s.net.took k } else none
    | _, _ => none
  | .fails i =>
    match s.clients[i]? with
    | some c =>
      if c.ended = none ∧ c.receiving = true then some (s.setClient i c.leave) else none
    | none => none
  | .lose k => s.net.flying[k]?.map fun d => { s with net := s.net.lose k d }
  | .copy k => s.net.flying[k]?.map fun d => { s with net := s.net.spawn d }

end UdpPing

/-! ## What a client does -/

namespace NwcUdpClient

variable {c : NwcUdpClient} {d : UdpDatagram}

/-- The end of a pass changes only the counters of the loop. -/
structure SamePings (c c' : NwcUdpClient) : Prop where
  addr : c'.addr = c.addr
  echoMode : c'.echoMode = c.echoMode
  destaddr : c'.destaddr = c.destaddr
  receiving : c'.receiving = c.receiving
  pings : c'.pings = c.pings
  pongs : c'.pongs = c.pongs

theorem pace_same (c : NwcUdpClient) : SamePings c c.pace := by
  unfold pace
  dsimp only
  split
  · exact ⟨rfl, rfl, rfl, rfl, rfl, rfl⟩
  · exact ⟨rfl, rfl, rfl, rfl, rfl, rfl⟩

theorem countDown_same (c : NwcUdpClient) : SamePings c c.countDown := by
  unfold countDown
  split
  · exact pace_same c
  · dsimp only
    split
    · exact ⟨rfl, rfl, rfl, rfl, rfl, rfl⟩
    · obtain ⟨h1, h2, h3, h4, h5, h6⟩ := pace_same { c with loopCount := c.loopCount - 1 }
      exact ⟨h1, h2, h3, h4, h5, h6⟩

/-- A client that waits for pongs has one ping more than pongs in `recvfrom`, and else as many. -/
structure InTurn (c : NwcUdpClient) : Prop where
  waits : c.echoMode ≠ 2 → c.pings = c.pongs + if c.receiving then 1 else 0
  floods : c.echoMode = 2 → c.pongs = 0 ∧ c.receiving = false

theorem InTurn.echoes (h : c.InTurn) (hreceiving : c.receiving = true) : c.echoMode ≠ 2 := by
  intro hmode
  rw [(h.floods hmode).2] at hreceiving
  cases hreceiving

theorem SamePings.inTurn {c' : NwcUdpClient} (h : SamePings c c') (hc : c.InTurn) : c'.InTurn where
  waits := by
    rw [h.echoMode, h.pings, h.pongs, h.receiving]
    exact hc.waits
  floods := by
    rw [h.echoMode, h.pongs, h.receiving]
    exact hc.floods

theorem sentPing_spec (hc : c.InTurn) (hidle : c.receiving = false) :
    c.sentPing.InTurn ∧ c.sentPing.addr = c.addr ∧ c.sentPing.destaddr = c.destaddr ∧
      c.sentPing.pings = c.pings + 1 ∧ c.sentPing.pongs = c.pongs := by
  unfold sentPing
  dsimp only
  by_cases hmode : c.echoMode = 2
  · rw [if_neg (not_ne_iff.mpr hmode)]
    have hsame := countDown_same { c with pings := c.pings + 1 }
    exact ⟨hsame.inTurn ⟨fun hne => absurd hmode hne, hc.floods⟩, hsame.addr, hsame.destaddr,
      hsame.pings, hsame.pongs⟩
  · rw [if_pos hmode]
    refine ⟨⟨fun _ => ?_, fun heq => absurd heq hmode⟩, rfl, rfl, rfl, rfl⟩
    have hbefore := hc.waits hmode
    rw [hidle] at hbefore
    show c.pings + 1 = c.pongs + 1
    rw [hbefore]
    rfl

theorem recvPong_spec (hc : c.InTurn) (htakes : c.Takes d) :
    (c.recvPong d).InTurn ∧ (c.recvPong d).addr = c.addr ∧
      (c.recvPong d).destaddr = (if c.connected then c.destaddr else d.src) ∧
      (c.recvPong d).pings = c.pings ∧ (c.recvPong d).pongs = c.pongs + 1 := by
  have hreceived : (c.received d).InTurn := by
    refine ⟨fun hmode => ?_, fun hmode => ?_⟩
    · have hbefore := hc.waits hmode
      rw [htakes.2.1] at hbefore
      exact hbefore
    · exact absurd hmode (hc.echoes htakes.2.1)
  unfold recvPong
  split
  · exact ⟨⟨hreceived.waits, hreceived.floods⟩, rfl, rfl, rfl, rfl⟩
  · have hsame := countDown_same (c.received d)
    exact ⟨hsame.inTurn hreceived, hsame.addr, hsame.destaddr, hsame.pings, hsame.pongs⟩

end NwcUdpClient

theorem NwcUdpServer.answer_cases (s : NwcUdpServer) (sends : Bool) :
    (s.answer sends).2.addr = s.addr ∧ (s.answer sends).2.echoMode = s.echoMode ∧
      ((s.answer sends).1 = none ∨ (s.answer sends).1 = some s.reply) := by
  have hregister : s.register.addr = s.addr ∧ s.register.echoMode = s.echoMode := by
    unfold NwcUdpServer.register
    split
    · exact ⟨rfl, rfl⟩
    · exact ⟨rfl, rfl⟩
  unfold NwcUdpServer.answer
  split
  · split
    · exact ⟨hregister.1, hregister.2, Or.inr rfl⟩
    · exact ⟨rfl, rfl, Or.inl rfl⟩
  · exact ⟨hregister.1, hregister.2, Or.inl rfl⟩

namespace UdpPing

/-! ## The balance of each client -/

/-- The pings of the client with the address `a`, and the pongs for it. -/
def of (a : SockAddr) (d : UdpDatagram) : Bool := d.src = a ∨ d.dst = a

/-- The account of a client with the network. -/
structure ClientOk (server : SockAddr) (net : Network UdpDatagram) (c : NwcUdpClient) : Prop where
  apart : c.addr ≠ server
  dest : c.destaddr = server
  inTurn : c.InTurn
  owes : Owes net (of c.addr) (c.pings - c.pongs)

structure Sound (s : UdpPing) : Prop where
  distinct : ∀ (i j : Nat) (c c' : NwcUdpClient), s.clients[i]? = some c →
    s.clients[j]? = some c' → c.addr = c'.addr → i = j
  routed : ∀ d ∈ s.net.flying, d.dst = s.server.addr ∨ d.src = s.server.addr
  clients : ∀ (i : Nat) c, s.clients[i]? = some c → ClientOk s.server.addr s.net c

variable {s t : UdpPing} {i k : Nat} {c c' : NwcUdpClient} {d : UdpDatagram}
  {net : Network UdpDatagram}

/-- One client moves, and the network. -/
theorem Sound.move (h : s.Sound) (hi : s.clients[i]? = some c) (haddr : c'.addr = c.addr)
    (hrouted : ∀ d ∈ net.flying, d.dst = s.server.addr ∨ d.src = s.server.addr)
    (hself : ClientOk s.server.addr net c')
    (hothers : ∀ c'' : NwcUdpClient, c''.addr ≠ c.addr → ClientOk s.server.addr s.net c'' →
      ClientOk s.server.addr net c'') :
    Sound { s.setClient i c' with net := net } := by
  have hget : ∀ (j : Nat) x, (s.clients.set i c')[j]? = some x →
      (j = i ∧ x = c') ∨ (j ≠ i ∧ s.clients[j]? = some x) := by
    intro j x hx
    rw [List.getElem?_set] at hx
    split at hx
    · next hij =>
      split at hx
      · exact Or.inl ⟨hij.symm, (Option.some.inj hx).symm⟩
      · cases hx
    · next hij => exact Or.inr ⟨Ne.symm hij, hx⟩
  refine ⟨?_, hrouted, ?_⟩
  · intro j j' x x' hx hx' heq
    rcases hget j x hx with ⟨rfl, rfl⟩ | ⟨hj, hold⟩
    · rcases hget j' x' hx' with ⟨rfl, -⟩ | ⟨-, hold'⟩
      · rfl
      · exact h.distinct _ _ _ _ hi hold' (haddr.symm.trans heq)
    · rcases hget j' x' hx' with ⟨rfl, rfl⟩ | ⟨-, hold'⟩
      · exact h.distinct _ _ _ _ hold hi (heq.trans haddr)
      · exact h.distinct _ _ _ _ hold hold' heq
  · intro j x hx
    rcases hget j x hx with ⟨-, rfl⟩ | ⟨hj, hx⟩
    · exact hself
    · refine hothers x (fun heq => hj ?_) (h.clients j x hx)
      exact h.distinct _ _ _ _ hx hi heq

/-- A datagram between the server and one client counts for no other client. -/
theorem one_other {a b server : SockAddr} (hab : a ≠ b) (ha : a ≠ server)
    (hd : (d.src = b ∧ d.dst = server) ∨ (d.src = server ∧ d.dst = b)) : one (of a) d = 0 := by
  have hof : of a d = false := by
    rw [of, decide_eq_false_iff_not]
    rcases hd with ⟨hsrc, hdst⟩ | ⟨hsrc, hdst⟩
    · rw [hsrc, hdst]
      exact fun h => h.elim (fun h => hab h.symm) fun h => ha h.symm
    · rw [hsrc, hdst]
      exact fun h => h.elim (fun h => ha h.symm) fun h => hab h.symm
  rw [one, hof]
  rfl

/-- It counts for that one. -/
theorem one_self {a : SockAddr} (hd : d.src = a ∨ d.dst = a) : one (of a) d = 1 := by
  have hof : of a d = true := by
    rw [of, decide_eq_true_iff]
    exact hd
  rw [one, hof]
  rfl

/-- Only the network and the server's notes change. -/
theorem Sound.net_only (h : s.Sound) {server : NwcUdpServer} (hserver : server.addr = s.server.addr)
    (hrouted : ∀ d ∈ net.flying, d.dst = s.server.addr ∨ d.src = s.server.addr)
    (howes : ∀ a n, Owes s.net (of a) n → Owes net (of a) n) :
    Sound { s with server := server, net := net } where
  distinct := h.distinct
  routed := by
    show ∀ d ∈ net.flying, d.dst = server.addr ∨ d.src = server.addr
    rw [hserver]
    exact hrouted
  clients := by
    intro i c hi
    have hok := h.clients i c hi
    show ClientOk server.addr net c
    rw [hserver]
    exact ⟨hok.apart, hok.dest, hok.inTurn, howes _ _ hok.owes⟩

theorem ping_sound (h : s.Sound) (hi : s.clients[i]? = some c) (hidle : c.receiving = false) :
    Sound { s.setClient i c.sentPing with net := s.net.send c.ping } := by
  have hok := h.clients i c hi
  obtain ⟨hturn, haddr, hdest, hpings, hpongs⟩ := NwcUdpClient.sentPing_spec hok.inTurn hidle
  have hping : c.ping.src = c.addr ∧ c.ping.dst = s.server.addr := ⟨rfl, hok.dest⟩
  refine h.move hi haddr (Network.forall_send h.routed (Or.inl hping.2)) ⟨?_, ?_, hturn, ?_⟩
    fun c'' hne hc'' => ?_
  · rw [haddr]
    exact hok.apart
  · rw [hdest]
    exact hok.dest
  · rw [haddr, hpings, hpongs]
    have howes := hok.owes.send c.ping
    rw [one_self (Or.inl hping.1)] at howes
    have hsum : ((c.pings + 1 : Nat) : Int) - c.pongs = c.pings - c.pongs + 1 := by omega
    rw [hsum]
    exact howes
  · have howes := hc''.owes.send c.ping
    rw [one_other hne hc''.apart (Or.inl hping), Int.add_zero] at howes
    exact ⟨hc''.apart, hc''.dest, hc''.inTurn, howes⟩

theorem pong_sound (h : s.Sound) (hk : s.net.flying[k]? = some d) (hi : s.clients[i]? = some c)
    (htakes : c.Takes d) :
    Sound { s.setClient i (c.recvPong d) with net := s.net.took k } := by
  have hok := h.clients i c hi
  obtain ⟨hturn, haddr, hdest, hpings, hpongs⟩ := NwcUdpClient.recvPong_spec hok.inTurn htakes
  -- what comes to a client is from the server
  have hsrc : d.src = s.server.addr := by
    rcases h.routed d (List.mem_of_getElem? hk) with hdst | hsrc
    · exact absurd (htakes.2.2.1.symm.trans hdst) hok.apart
    · exact hsrc
  refine h.move hi haddr (Network.forall_took h.routed k) ⟨?_, ?_, hturn, ?_⟩
    fun c'' hne hc'' => ?_
  · rw [haddr]
    exact hok.apart
  · rw [hdest]
    split
    · exact hok.dest
    · exact hsrc
  · rw [haddr, hpings, hpongs]
    have howes := hok.owes.took hk
    rw [one_self (Or.inr htakes.2.2.1)] at howes
    have hsum : (c.pings : Int) - (c.pongs + 1 : Nat) = c.pings - c.pongs - 1 := by omega
    rw [hsum]
    exact howes
  · have howes := hc''.owes.took hk
    rw [one_other hne hc''.apart (Or.inr ⟨hsrc, htakes.2.2.1⟩), Int.sub_zero] at howes
    exact ⟨hc''.apart, hc''.dest, hc''.inTurn, howes⟩

theorem leave_sound (h : s.Sound) (hi : s.clients[i]? = some c) :
    (s.setClient i c.leave).Sound := by
  have hok := h.clients i c hi
  have hmove : Sound { s.setClient i c.leave with net := s.net } :=
    h.move hi rfl h.routed
      ⟨hok.apart, hok.dest, ⟨hok.inTurn.waits, hok.inTurn.floods⟩, hok.owes⟩ fun _ _ hc => hc
  exact hmove

theorem served_sound (h : s.Sound) (hk : s.net.flying[k]? = some d) (hdst : d.dst = s.server.addr)
    (sends : Bool) : (s.served k d sends).Sound := by
  unfold served
  obtain ⟨haddr, -, hcases⟩ := NwcUdpServer.answer_cases { s.server with clientAddr := d.src } sends
  rcases hcases with hnone | hsome
  · dsimp only
    rw [hnone]
    exact h.net_only haddr (Network.forall_lose h.routed k d) fun a n howes => howes.lose hk
  · dsimp only
    rw [hsome]
    refine h.net_only haddr (Network.forall_send (Network.forall_took h.routed k) (Or.inr rfl))
      fun a n howes => howes.answer hk ?_
    -- the pong goes to where the ping came from
    show of a { src := s.server.addr, dst := d.src, data := UnixIo.pong } = of a d
    rw [of, of, hdst, decide_eq_decide]
    exact or_comm

/-- What a step can be. -/
inductive Moves (s : UdpPing) : Event → UdpPing → Prop where
  | ping {i : Nat} {c : NwcUdpClient} (hi : s.clients[i]? = some c) (hended : c.ended = none)
      (hidle : c.receiving = false) :
      Moves s (.ping i true) { s.setClient i c.sentPing with net := s.net.send c.ping }
  | pingFails {i : Nat} {c : NwcUdpClient} (hi : s.clients[i]? = some c) (hended : c.ended = none)
      (hidle : c.receiving = false) : Moves s (.ping i false) (s.setClient i c.leave)
  | serve {k : Nat} {d : UdpDatagram} (sends : Bool) (hk : s.net.flying[k]? = some d)
      (hmode : s.server.echoMode ≠ 3) (hdst : d.dst = s.server.addr) :
      Moves s (.serve k sends) (s.served k d sends)
  | volley (sends : Bool) (hmode : s.server.echoMode = 3) :
      Moves s (.volley sends)
        { s with
          server := (s.server.answer sends).2
          net := match (s.server.answer sends).1 with
            | some reply => s.net.spawn reply
            | none => s.net }
  | pong {k i : Nat} {d : UdpDatagram} {c : NwcUdpClient} (hk : s.net.flying[k]? = some d)
      (hi : s.clients[i]? = some c) (htakes : c.Takes d) :
      Moves s (.pong k i) { s.setClient i (c.recvPong d) with net := s.net.took k }
  | fails {i : Nat} {c : NwcUdpClient} (hi : s.clients[i]? = some c) (hended : c.ended = none)
      (hreceiving : c.receiving = true) : Moves s (.fails i) (s.setClient i c.leave)
  | lose {k : Nat} {d : UdpDatagram} (hk : s.net.flying[k]? = some d) :
      Moves s (.lose k) { s with net := s.net.lose k d }
  | copy {k : Nat} {d : UdpDatagram} (hk : s.net.flying[k]? = some d) :
      Moves s (.copy k) { s with net := s.net.spawn d }

theorem moves_of_step {e : Event} (hstep : s.step e = some t) : s.Moves e t := by
  cases e with
  | ping i sends =>
    simp only [UdpPing.step] at hstep
    split at hstep
    · next c hi =>
      split at hstep
      · next hready =>
        split at hstep
        · next hsends =>
          cases hstep
          cases hsends
          exact .ping hi hready.1 hready.2
        · next hsends =>
          cases hstep
          cases Bool.eq_false_iff.mpr hsends
          exact .pingFails hi hready.1 hready.2
      · cases hstep
    · cases hstep
  | serve k sends =>
    simp only [UdpPing.step] at hstep
    split at hstep
    · next d hk =>
      split at hstep
      · next hgood =>
        cases hstep
        exact .serve sends hk hgood.1 hgood.2
      · cases hstep
    · cases hstep
  | volley sends =>
    simp only [UdpPing.step] at hstep
    split at hstep
    · next hmode =>
      cases hstep
      exact .volley sends hmode
    · cases hstep
  | pong k i =>
    simp only [UdpPing.step] at hstep
    split at hstep
    · next d c hk hi =>
      split at hstep
      · next htakes =>
        cases hstep
        exact .pong hk hi htakes
      · cases hstep
    · cases hstep
  | fails i =>
    simp only [UdpPing.step] at hstep
    split at hstep
    · next c hi =>
      split at hstep
      · next hwaits =>
        cases hstep
        exact .fails hi hwaits.1 hwaits.2
      · cases hstep
    · cases hstep
  | lose k =>
    obtain ⟨d, hk, rfl⟩ := Option.map_eq_some_iff.mp hstep
    exact .lose hk
  | copy k =>
    obtain ⟨d, hk, rfl⟩ := Option.map_eq_some_iff.mp hstep
    exact .copy hk

theorem Sound.step (h : s.Sound) {e : Event} (hstep : s.step e = some t) : t.Sound := by
  cases moves_of_step hstep with
  | ping hi hended hidle => exact ping_sound h hi hidle
  | pingFails hi hended hidle => exact leave_sound h hi
  | serve sends hk hmode hdst => exact served_sound h hk hdst sends
  | volley sends hmode =>
    obtain ⟨haddr, -, hcases⟩ := s.server.answer_cases sends
    rcases hcases with hnone | hsome
    · rw [hnone]
      exact h.net_only haddr h.routed fun _ _ howes => howes
    · rw [hsome]
      exact h.net_only haddr (Network.forall_spawn h.routed (Or.inr rfl))
        fun _ _ howes => howes.spawn _
  | pong hk hi htakes => exact pong_sound h hk hi htakes
  | fails hi hended hreceiving => exact leave_sound h hi
  | @lose k d hk =>
    exact h.net_only rfl (Network.forall_lose h.routed k d) fun _ _ howes => howes.lose hk
  | @copy k d hk =>
    exact h.net_only rfl (Network.forall_spawn h.routed (h.routed d (List.mem_of_getElem? hk)))
      fun _ _ howes => howes.spawn d

/-! ## The start -/

/-- Each socket has an address of its own. -/
structure OwnAddresses (server : SockAddr) (args : List (UdpArgs × SockAddr × List UInt8)) :
    Prop where
  distinct : (args.map fun a => a.2.1).Nodup
  apart : ∀ a ∈ args, a.2.1 ≠ server

theorem start_sound {server : SockAddr} {args : List (UdpArgs × SockAddr × List UInt8)}
    (h : OwnAddresses server args) (mode : Int32) : (start server mode args).Sound := by
  have hget : ∀ (i : Nat) c, (start server mode args).clients[i]? = some c →
      ∃ a, args[i]? = some a ∧ c = .start a.1 a.2.1 server a.2.2 := by
    intro i c hc
    rw [start, List.getElem?_map] at hc
    obtain ⟨a, ha, rfl⟩ := Option.map_eq_some_iff.mp hc
    exact ⟨a, ha, rfl⟩
  refine ⟨fun i j c c' hi hj heq => ?_, fun _ hd => absurd hd List.not_mem_nil, fun i c hi => ?_⟩
  · obtain ⟨a, ha, rfl⟩ := hget i c hi
    obtain ⟨a', ha', rfl⟩ := hget j c' hj
    have haddr : a.2.1 = a'.2.1 := heq
    have hlt : i < (args.map fun a => a.2.1).length := by
      rw [List.length_map]
      exact (List.getElem?_eq_some_iff.mp ha).1
    refine (List.getElem?_inj hlt h.distinct).mp ?_
    rw [List.getElem?_map, List.getElem?_map, ha, ha']
    exact congrArg some haddr
  · obtain ⟨a, ha, rfl⟩ := hget i c hi
    exact
      { apart := h.apart a (List.mem_of_getElem? ha)
        dest := rfl
        inTurn := ⟨fun _ => rfl, fun _ => ⟨rfl, rfl⟩⟩
        owes := owes_empty _ }

end UdpPing

end Nwchecker.UnixIo
