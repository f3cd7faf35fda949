import Nwchecker.Lib.Descriptors
import Nwchecker.Types

/-!
# Sockets

`nwc_sock.c`: a socket is created for one candidate after the other that `getaddrinfo` found, until
`bind` or `connect` takes one. The resolver is a parameter, and so are the answers of the system; an
answer that the system does not give, such as a descriptor that is in use, makes a call `none`.
-/

namespace Nwchecker

open Descriptors

def AF_INET : Int := 2
def SOCK_STREAM : Int := 1
def SOCK_DGRAM : Int := 2

/-! ## The kernel's side -/

/-- A socket: `O_NONBLOCK`, and the addresses that `bind` and `connect` were called with. -/
structure SocketFile where
  nonblock : Bool
  bound : Option SockAddr
  peer : Option SockAddr
  deriving DecidableEq, Repr

/-- A socket as `socket` and `accept` return it. `O_NONBLOCK` is not inherited from a listener. -/
def SocketFile.new : SocketFile where
  nonblock := false
  bound := none
  peer := none

/-- `F_GETFL`, `flags |= O_NONBLOCK`, `F_SETFL`. -/
def SocketFile.setNonblock (s : SocketFile) : SocketFile := { s with nonblock := true }

abbrev SocketTable := Table SocketFile

/-! ## `nwc_sock.c` -/

/-- `struct addrinfo` -/
structure AddrInfo where
  family : Int
  socktype : Int
  addr : SockAddr
  deriving DecidableEq, Repr

/-- `getaddrinfo` by host and service. `none` is an error. -/
abbrev Resolver := String → String → Option (List AddrInfo)

/-- The answers of the system for one candidate. -/
structure SockAnswers where
  socket : Int
  setsockopt : Int
  /-- `bind` or `connect`: 0, or the `errno` with which it failed. -/
  attach : Int
  deriving DecidableEq, Repr

/-- `nwc_sock_create`. What is passed to `socket` has no influence on what follows. -/
def nwcSockCreate (d : SocketTable) (nonblock reuseaddr : Bool) (a : SockAnswers) :
    Option (Int × SocketTable) :=
  if a.socket = -1 then some (-1, d)
  else
    match d.opened a.socket SocketFile.new with
    | none => none
    | some d =>
      let d := if nonblock then d.changed a.socket SocketFile.setNonblock else d
      if reuseaddr ∧ a.setsockopt = -1 then some (-1, d.closed a.socket) else some (a.socket, d)

/-- The loop of `nwc_sock_listen`, from `res` on: the descriptor that was bound, or `-1`. -/
def sockListenLoop (family socktype : Int) :
    SocketTable → List AddrInfo → List SockAnswers → Option (Int × SocketTable)
  | d, [], _ => some (-1, d)
  | d, ai :: res, as =>
    if ai.socktype = socktype ∧ ai.family = family then
      match as with
      | [] => none
      | a :: as =>
        match nwcSockCreate d true true a with
        | none => none
        | some (fd, d) =>
          if 0 ≤ fd then
            if a.attach = 0 then some (fd, d.changed fd fun s => { s with bound := some ai.addr })
            else sockListenLoop family socktype (d.closed fd) res as
          else sockListenLoop family socktype d res as
    else sockListenLoop family socktype d res as

/-- `nwc_sock_listen`. `listen` is the answer of the system call of this name. -/
def nwcSockListen (resolve : Resolver) (d : SocketTable) (family socktype : Int) (host : String)
    (port : UInt16) (as : List SockAnswers) (listen : Int) : Option (Int × SocketTable) :=
  match resolve host (toString port.toNat) with
  | none => some (-1, d)
  | some res =>
    match sockListenLoop family socktype d res as with
    | none => none
    | some (rc, d) =>
      if rc < 0 then some (rc, d)
      else if socktype = SOCK_STREAM ∧ listen = -1 then some (-1, d.closed rc)
      else some (rc, d)

/--
The loop of `nwc_sock_connect`, from `res` on: `rc` and `*fd`, which is `-1` before the call.
A candidate for which no socket can be created leaves `rc` as it is.
-/
def sockConnectLoop :
    SocketTable → Int → List AddrInfo → List SockAnswers → Option (Int × Int × SocketTable)
  | d, rc, [], _ => some (rc, -1, d)
  | _, _, _ :: _, [] => none
  | d, rc, ai :: res, a :: as =>
    match nwcSockCreate d true false a with
    | none => none
    | some (fd, d) =>
      if 0 ≤ fd then
        if a.attach = 0 ∨ a.attach = EINPROGRESS ∨ a.attach = EWOULDBLOCK then
          some (a.attach, fd, d.changed fd fun s => { s with peer := some ai.addr })
        else sockConnectLoop (d.closed fd) (-1) res as
      else sockConnectLoop d rc res as

/-- `nwc_sock_connect`: the result, `*fd`, and what is open. `peerport` is a `uint8_t`. -/
def nwcSockConnect (resolve : Resolver) (d : SocketTable) (peerhost : String) (peerport : UInt8)
    (as : List SockAnswers) : Option (Int × Int × SocketTable) :=
  match resolve peerhost (toString peerport.toNat) with
  | none => some (-1, -1, d)
  | some res => sockConnectLoop d 0 res as

/-! ## What is open afterwards -/

/-- The one file that is open in `d'` and not in `d` is a socket `fd` that does not block. -/
structure Obtains (d d' : SocketTable) (fd : Int) : Prop where
  nonneg : 0 ≤ fd
  fresh : d.file fd = none
  socket : ∃ s, d'.file fd = some s ∧ s.nonblock = true
  other : ∀ x, x ≠ fd → d'.file x = d.file x

/-- A call that gives `fd` to its caller has opened that socket; one that gives `-1`, nothing. -/
def ObtainsOrNot (d d' : SocketTable) (fd : Int) : Prop := (fd = -1 ∧ d' = d) ∨ Obtains d d' fd

variable {d d' : SocketTable} {fd : Int}

/-- When it is closed again, nothing has happened. -/
theorem Obtains.closed (h : Obtains d d' fd) : d'.closed fd = d := by
  ext1
  funext x
  by_cases hx : x = fd
  · rw [hx, Table.closed_file, h.fresh]
  · rw [Table.closed_other d' hx, h.other x hx]

/-- Its addresses do not matter. -/
theorem Obtains.changed (h : Obtains d d' fd) {g : SocketFile → SocketFile}
    (hg : ∀ s, (g s).nonblock = s.nonblock) : Obtains d (d'.changed fd g) fd where
  nonneg := h.nonneg
  fresh := h.fresh
  socket := by
    obtain ⟨s, hs, hnb⟩ := h.socket
    refine ⟨g s, ?_, by rw [hg, hnb]⟩
    rw [Table.changed_file, hs]
    rfl
  other := by
    intro x hx
    rw [Table.changed_other d' g hx, h.other x hx]

/-- What was open stays as it is. -/
theorem ObtainsOrNot.keeps (h : ObtainsOrNot d d' fd) {x : Int} (hx : d.file x ≠ none) :
    d'.file x = d.file x := by
  rcases h with ⟨-, rfl⟩ | h
  · rfl
  · refine h.other x ?_
    rintro rfl
    exact hx h.fresh

end Nwchecker
