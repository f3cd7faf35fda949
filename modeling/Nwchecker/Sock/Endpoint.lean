import Nwchecker.Sock.Blocking
import Nwchecker.Sock.Candidates

/-!
# Where client and server meet

A port comes from the configuration as an `unsigned short` and goes through `nwc_io_listen` or
`nwc_io_connect` to a handler and to `nwc_sock.c`, which looks up the host and the decimal string
of the port. `nwc_sock_listen` takes a `uint16_t`, but the `peerport` of `nwc_sock_connect` is a
`uint8_t`: a client looks up the port modulo 256. `meets_iff` says when it finds the server all the
same.
-/

namespace Nwchecker

open Descriptors

/-! ## The calls -/

/-- `nwc_io_listen`. The `type` of the handler chooses the protocol. -/
def nwcIoListen (resolve : Resolver) (d : SocketTable) (h : IoHandler) (ip : String)
    (port : UInt16) (as : List SockAnswers) (listen add : Int) (eh : Nat) :
    Option (Int × IoHandler × SocketTable) :=
  match h with
  | .tcp h =>
    (nwcSockListen resolve d AF_INET SOCK_STREAM ip port as listen).map fun (fd, d) =>
      let r := nwcTcpHandlerListen h fd (epollAdd d fd add) eh
      (r.1, .tcp r.2, d)
  | .udp h =>
    (nwcSockListen resolve d AF_INET SOCK_DGRAM ip port as listen).map fun (fd, d) =>
      let r := nwcUdpHandlerListen h fd (epollAdd d fd add) eh
      (r.1, .udp r.2, d)

/-- `nwc_io_connect`. The call of `nwc_sock_connect` cuts the port down to its low byte. -/
def nwcIoConnect (resolve : Resolver) (d : SocketTable) (h : IoHandler) (ip : String)
    (port : UInt16) (as : List SockAnswers) (add : Int) (eh : Nat) :
    Option (Int × IoHandler × SocketTable) :=
  (nwcSockConnect resolve d ip port.toUInt8 as).map fun (rc, fd, d) =>
    match h with
    | .tcp h =>
      let r := nwcTcpHandlerConnect h rc fd (epollAdd d fd add) eh
      (r.1, .tcp r.2, d)
    | .udp h =>
      let r := nwcUdpHandlerConnect h rc fd (epollAdd d fd add) eh
      (r.1, .udp r.2, d)

/-- What the resolver finds for a host and a service. -/
def Resolver.addresses (resolve : Resolver) (host service : String) : List SockAddr :=
  ((resolve host service).getD []).map AddrInfo.addr

theorem Resolver.mem_addresses {resolve : Resolver} {host service : String}
    {res : List AddrInfo} (h : resolve host service = some res) {a : SockAddr} :
    a ∈ resolve.addresses host service ↔ ∃ ai ∈ res, ai.addr = a := by
  simp [addresses, h]

/-- A socket that a server leaves open is bound to an address of its configured port. -/
def ListensAt (resolve : Resolver) (ip : String) (port : UInt16) : Prop :=
  ∀ d h as listen add eh rc h' d',
    nwcIoListen resolve d h ip port as listen add eh = some (rc, h', d') →
      ∀ x s, d.file x = none → d'.file x = some s →
        ∃ a ∈ resolve.addresses ip (toString port.toNat), s.bound = some a

/-- A socket that a client leaves open, which it does when it reports success or that the connect
is in progress, is connected to an address of the configured port. -/
def ConnectsTo (resolve : Resolver) (ip : String) (port : UInt16) : Prop :=
  ∀ d h as add eh rc h' d',
    nwcIoConnect resolve d h ip port as add eh = some (rc, h', d') →
      ∀ x s, d.file x = none → d'.file x = some s →
        ∃ a ∈ resolve.addresses ip (toString port.toNat), s.peer = some a

/-! ## The sockets that are left open -/

/-- The socket that is new is the one that was handed out. -/
theorem Obtains.new {d d' : SocketTable} {fd x : Int} {s : SocketFile} (h : Obtains d d' fd)
    (hx : d.file x = none) (hs : d'.file x = some s) : x = fd := by
  by_contra hne
  rw [h.other x hne, hx] at hs
  cases hs

/-- The address of the candidate that is used comes from the resolver. -/
theorem connectChoice_addr {resolve : Resolver} {peerhost : String} {peerport : UInt8}
    {as : List SockAnswers} {c : AddrInfo × SockAnswers}
    (h : connectChoice resolve peerhost peerport as = some c) :
    c.1.addr ∈ resolve.addresses peerhost (toString peerport.toNat) := by
  obtain ⟨res, hres, hfind⟩ := Option.bind_eq_some_iff.mp h
  have hc : c ∈ res.zip as := List.mem_of_find?_eq_some hfind
  exact (Resolver.mem_addresses hres).mpr ⟨c.1, (List.of_mem_zip hc).1, rfl⟩

theorem nwcSockListen_bound {resolve : Resolver} {d d' : SocketTable} {family socktype fd x : Int}
    {host : String} {port : UInt16} {as : List SockAnswers} {listen : Int} {s : SocketFile}
    (h : nwcSockListen resolve d family socktype host port as listen = some (fd, d'))
    (hx : d.file x = none) (hs : d'.file x = some s) :
    ∃ a ∈ resolve.addresses host (toString port.toNat), s.bound = some a := by
  rcases nwcSockListen_cases h with ⟨-, hob, res, hres, ai, hai, hbound⟩ | ⟨-, -, rfl⟩
  · obtain rfl := hob.new hx hs
    rw [hs] at hbound
    exact ⟨ai.addr, (Resolver.mem_addresses hres).mpr ⟨ai, hai, rfl⟩, hbound⟩
  · rw [hx] at hs
    cases hs

theorem nwcSockConnect_peer {resolve : Resolver} {d d' : SocketTable} {fd x rc : Int}
    {peerhost : String} {peerport : UInt8} {as : List SockAnswers} {s : SocketFile}
    (h : nwcSockConnect resolve d peerhost peerport as = some (rc, fd, d'))
    (hx : d.file x = none) (hs : d'.file x = some s) :
    ∃ a ∈ resolve.addresses peerhost (toString peerport.toNat), s.peer = some a := by
  rcases nwcSockConnect_cases h with ⟨c, hchoice, -, -, -, hob, hpeer⟩ | ⟨-, -, -, -, rfl⟩ |
    ⟨-, -, -, -, rfl⟩
  · obtain rfl := hob.new hx hs
    rw [hs] at hpeer
    exact ⟨c.1.addr, connectChoice_addr hchoice, hpeer⟩
  · rw [hx] at hs
    cases hs
  · rw [hx] at hs
    cases hs

/-- A server is found at the port that it was given. -/
theorem listensAt (resolve : Resolver) (ip : String) (port : UInt16) :
    ListensAt resolve ip port := by
  intro d h as listen add eh rc h' d' hcall x s hx hs
  cases h with
  | tcp h =>
    obtain ⟨⟨fd, d₁⟩, hlisten, heq⟩ := Option.map_eq_some_iff.mp hcall
    cases heq
    exact nwcSockListen_bound hlisten hx hs
  | udp h =>
    obtain ⟨⟨fd, d₁⟩, hlisten, heq⟩ := Option.map_eq_some_iff.mp hcall
    cases heq
    exact nwcSockListen_bound hlisten hx hs

theorem nwcIoConnect_sock {resolve : Resolver} {d d' : SocketTable} {h h' : IoHandler}
    {ip : String} {port : UInt16} {as : List SockAnswers} {add rc : Int} {eh : Nat}
    (hcall : nwcIoConnect resolve d h ip port as add eh = some (rc, h', d')) :
    ∃ rc fd, nwcSockConnect resolve d ip port.toUInt8 as = some (rc, fd, d') := by
  obtain ⟨⟨rc₁, fd, d₁⟩, hconnect, heq⟩ := Option.map_eq_some_iff.mp hcall
  cases h with
  | tcp h =>
    cases heq
    exact ⟨rc₁, fd, hconnect⟩
  | udp h =>
    cases heq
    exact ⟨rc₁, fd, hconnect⟩

/-! ## Any candidate may be the one -/

/-- No sockets for the candidates in front, and then everything works. -/
def takesAt (n : Nat) : List SockAnswers :=
  List.replicate n { socket := -1, setsockopt := 0, attach := 0 }
    ++ [{ socket := 0, setsockopt := 0, attach := 0 }]

theorem sockConnectLoop_takesAt (ai : AddrInfo) (post : List AddrInfo) (rc : Int) :
    ∀ pre : List AddrInfo, ∃ d' s,
      sockConnectLoop Table.empty rc (pre ++ ai :: post) (takesAt pre.length) = some (0, 0, d') ∧
        d'.file 0 = some s ∧ s.peer = some ai.addr := by
  intro pre
  induction pre with
  | nil => exact ⟨_, _, rfl, rfl, rfl⟩
  | cons x pre ih =>
    obtain ⟨d', s, hloop, hs, hpeer⟩ := ih
    exact ⟨d', s, hloop, hs, hpeer⟩

/-- The decimal string of a number stands for that number only. -/
theorem toString_injective {m n : Nat} (h : toString m = toString n) : m = n := by
  rw [Nat.toString_eq_repr, Nat.toString_eq_repr] at h
  have hdigits : Nat.toDigits 10 m = Nat.toDigits 10 n := by
    rw [← Nat.toList_repr, ← Nat.toList_repr, h]
  rw [← Nat.ofDigitChars_ten_toDigits (n := m), hdigits, Nat.ofDigitChars_ten_toDigits]

/-- The addresses for the low byte of the port are among those for the port. -/
def LowByteFound (resolve : Resolver) (ip : String) (port : UInt16) : Prop :=
  ∀ a ∈ resolve.addresses ip (toString port.toUInt8.toNat),
    a ∈ resolve.addresses ip (toString port.toNat)

theorem connectsTo_iff (resolve : Resolver) (ip : String) (port : UInt16) :
    ConnectsTo resolve ip port ↔ LowByteFound resolve ip port := by
  constructor
  · intro hmeets a ha
    cases hres : resolve ip (toString port.toUInt8.toNat) with
    | none =>
      rw [Resolver.addresses, hres] at ha
      cases ha
    | some res =>
      obtain ⟨ai, hai, rfl⟩ := (Resolver.mem_addresses hres).mp ha
      obtain ⟨pre, post, rfl⟩ := List.append_of_mem hai
      obtain ⟨d', s, hloop, hs, hpeer⟩ := sockConnectLoop_takesAt ai post 0 pre
      have hconnect : nwcSockConnect resolve Table.empty ip port.toUInt8 (takesAt pre.length)
          = some (0, 0, d') := by
        rw [nwcSockConnect, hres]
        exact hloop
      obtain ⟨a, ha', hpeer'⟩ := hmeets Table.empty (.tcp (nwcTcpHandlerInit true))
        (takesAt pre.length) 0 0 _ _ d' (by rw [nwcIoConnect, hconnect]; rfl) 0 s rfl hs
      rw [hpeer, Option.some.injEq] at hpeer'
      rw [hpeer']
      exact ha'
  · intro hlow d h as add eh rc h' d' hcall x s hx hs
    obtain ⟨rc₁, fd, hconnect⟩ := nwcIoConnect_sock hcall
    obtain ⟨a, ha, hpeer⟩ := nwcSockConnect_peer hconnect hx hs
    exact ⟨a, hlow a ha, hpeer⟩

/-- A resolver that knows one service. -/
def oneService (service : String) : Resolver := fun _ s =>
  if s = service then
    some [{ family := AF_INET, socktype := SOCK_STREAM, addr := { port := 0, addr := 0 } }]
  else none

/--
**When client and server meet.**

Whatever the system answers and whichever candidate is used, a server is bound to an address of its
port. A client is connected to one exactly when what the resolver finds for the low byte of the
port it also finds for the port; and with every resolver exactly when the port is below 256.
-/
theorem meets_iff (ip : String) (port : UInt16) :
    (∀ resolve, ListensAt resolve ip port) ∧
      (∀ resolve, ConnectsTo resolve ip port ↔ LowByteFound resolve ip port) ∧
      ((∀ resolve, ConnectsTo resolve ip port) ↔ port.toNat < 256) := by
  have hbyte : port.toUInt8.toNat = port.toNat % 256 := UInt16.toNat_toUInt8 port
  refine ⟨fun resolve => listensAt resolve ip port, fun resolve => connectsTo_iff resolve ip port,
    ?_⟩
  constructor
  · intro hall
    have hlow := (connectsTo_iff _ _ _).mp (hall (oneService (toString port.toUInt8.toNat)))
    have hfound := hlow { port := 0, addr := 0 } (by simp [Resolver.addresses, oneService])
    have heq : port.toNat = port.toUInt8.toNat := by
      by_contra hne
      have hstr : toString port.toNat ≠ toString port.toUInt8.toNat :=
        fun h => hne (toString_injective h)
      rw [Resolver.addresses, oneService, if_neg hstr] at hfound
      cases hfound
    omega
  · intro hport resolve
    refine (connectsTo_iff _ _ _).mpr fun a ha => ?_
    rw [hbyte, Nat.mod_eq_of_lt hport] at ha
    exact ha

/-- An address with the port that the service stands for. -/
def portOf : Resolver := fun _ service =>
  some
    [{ family := AF_INET
       socktype := SOCK_STREAM
       addr := { port := if service = "5000" then 5000 else 136, addr := 1 } }]

/-- A client that is told to use port 5000 connects to port 136. -/
theorem port5000_missed : ¬ConnectsTo portOf "server" 5000 := by
  intro h
  obtain ⟨d', s, hcall, hs, hpeer⟩ : ∃ d' s,
      nwcIoConnect portOf Table.empty (.tcp (nwcTcpHandlerInit true)) "server" 5000 (takesAt 0) 0 0
        = some (0, .tcp (nwcTcpHandlerConnect (nwcTcpHandlerInit true) 0 0 0 0).2, d') ∧
      d'.file 0 = some s ∧ s.peer = some { port := 136, addr := 1 } :=
    ⟨_, _, rfl, rfl, rfl⟩
  obtain ⟨a, ha, ha'⟩ := h _ _ _ _ _ _ _ _ hcall 0 s rfl hs
  rw [hpeer, Option.some.injEq] at ha'
  rw [← ha'] at ha
  exact absurd ha (by decide +kernel)

end Nwchecker
