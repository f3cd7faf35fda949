import Mathlib.Logic.Basic

/-!
# Types shared by all modules of the checker

`nwc_types.h`, the `errno` values the code tells apart, addresses, and the answers of system calls.
-/

namespace Nwchecker

/-- `cfg->mode`: `NWC_CLIENT` or `NWC_SERVER`. -/
inductive Mode where
  | client
  | server
  deriving DecidableEq, Repr

/-! ## errno -/

def EINTR : Int := 4
def EBADF : Int := 9
def EAGAIN : Int := 11
def EWOULDBLOCK : Int := 11
def EINVAL : Int := 22
def ENETDOWN : Int := 100
def ENETUNREACH : Int := 101
def ECONNRESET : Int := 104
def ETIMEDOUT : Int := 110
def ECONNREFUSED : Int := 111
def EHOSTUNREACH : Int := 113
def EINPROGRESS : Int := 115

/-- The fields of `struct sockaddr_in` that tell two senders apart. -/
structure SockAddr where
  port : UInt16
  addr : UInt32
  deriving DecidableEq, Repr

/--
The answer of a system call that the code repeats while `errno` is `EINTR`.

`interrupted retry` is one `-1`/`EINTR` answer followed by the answer to the repeated call, so
`failed` carries any `errno` but `EINTR`.
-/
inductive SysCall (α : Type) where
  | interrupted (retry : SysCall α)
  | done (a : α)
  | failed (errno : Int)
  deriving DecidableEq, Repr

/-- What the call comes to once it is no longer interrupted. -/
def SysCall.final {α : Type} : SysCall α → Except Int α
  | .interrupted retry => retry.final
  | .done a => .ok a
  | .failed errno => .error errno

/-- Memory of a given size as `malloc` returns it: the contents are whatever was there. -/
structure Block (n : Nat) where
  bytes : List UInt8
  size : bytes.length = n

/-- Cleared memory. -/
def Block.zero (n : Nat) : Block n where
  bytes := List.replicate n 0
  size := List.length_replicate

end Nwchecker
