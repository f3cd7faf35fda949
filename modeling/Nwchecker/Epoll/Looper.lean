import Mathlib.Logic.Function.Basic
import Nwchecker.Epoll.Entry
import Nwchecker.Lib.Deferred

/-!
# The epoll looper

`nwc_epoll_looper.c`: the entries, the list of removed entries and the loop `nwc_epoll_run`. The
callbacks and the workers are outside; they act on the looper through its own functions, and
a script of such calls stands for each of them.

Entries live at addresses. `malloc` may give a released address out again, so an entry is told
apart by its address and the handler it points at. The handlers are numbered as they are added.

What happens to the entries is noted in a log. `Nwchecker/Epoll/Discipline.lean` shows what it is
like.
-/

namespace Nwchecker

open Machine Deferred

/-- An address and the handler found there, or nothing when no entry is allocated there. -/
abbrev EntryRef := Nat × Option Nat

/-- `struct nwc_epoll_looper`, with the memory of its entries and the kernel's side. -/
structure NwcEpollLooper where
  /-- The entries that are allocated. -/
  entries : Nat → Option EpollEntry
  /-- `removed_epoll_entrys` -/
  removedEpollEntrys : List Nat
  exit : Bool
  /-- `nwc_epoll_run` gave up on an error of `epoll_wait`. -/
  failed : Bool
  /-- The entries that `epoll_wait` may report. -/
  interest : List Nat
  /-- How many handlers have been added. -/
  handlers : Nat
  log : List (Ev EntryRef)

namespace NwcEpollLooper

/-- What the memory at `handle` is taken for. -/
def ref (s : NwcEpollLooper) (handle : Nat) : EntryRef := (handle, (s.entries handle).map (·.eh))

def note (s : NwcEpollLooper) (e : Ev EntryRef) : NwcEpollLooper := { s with log := s.log ++ [e] }

def store (s : NwcEpollLooper) (handle : Nat) (e : Option EpollEntry) : NwcEpollLooper :=
  { s with entries := Function.update s.entries handle e }

/-- A new entry, registered with the kernel. -/
def attach (s : NwcEpollLooper) (handle : Nat) (e : EpollEntry) : NwcEpollLooper :=
  { s.store handle e with
    interest := handle :: s.interest
    handlers := s.handlers + 1 }.note (.add (handle, some s.handlers))

/-- `nwc_epoll_remove_handler`: the entry is marked, and goes to the end of the list. -/
def detach (s : NwcEpollLooper) (handle : Nat) (e : EpollEntry) : NwcEpollLooper :=
  { s.store handle (nwcEpollRemoveHandler e) with
    interest := s.interest.filter (· ≠ handle)
    removedEpollEntrys := s.removedEpollEntrys ++ [handle] }.note (.remove (s.ref handle))

/-- `list_del(pos)` and `free(entry)`. -/
def release (s : NwcEpollLooper) (handle : Nat) (rest : List Nat) : NwcEpollLooper :=
  { s.store handle none with removedEpollEntrys := rest }.note (.release (s.ref handle))

end NwcEpollLooper

/-- `nwc_epoll_init` and a successful `nwc_epoll_start`. -/
def nwcEpollStart : NwcEpollLooper where
  entries := fun _ => none
  removedEpollEntrys := []
  exit := false
  failed := false
  interest := []
  handlers := 0
  log := []

/-! ## Calls into the looper -/

/-- The functions of the looper. `malloc` and `ctl` are the answers of the system. -/
inductive LooperOp where
  | addHandler (malloc : Option Nat) (fd ctl : Int)
  | removeHandler (handle : Nat)
  | registerEvent (handle : Nat) (events : EventMask)
  | cancelEvent (handle : Nat) (events : EventMask)
  | stop

/--
One call. `none` is a call that the caller must not make: with a handle that is not allocated, or
a second removal. `malloc` does not answer an address that is in use.
-/
def looperOp (s : NwcEpollLooper) : LooperOp → Option NwcEpollLooper
  | .addHandler none _ _ => some s
  | .addHandler (some handle) fd ctl =>
    if s.entries handle = none then
      match nwcEpollAddHandler fd s.handlers ctl with
      | some entry => some (s.attach handle entry)
      | none => some s
    else none
  | .removeHandler handle =>
    match s.entries handle with
    | some entry =>
      if handle ∈ s.removedEpollEntrys then none else some (s.detach handle entry)
    | none => none
  | .registerEvent handle events =>
    match s.entries handle with
    | some entry => some (s.store handle (nwcEpollRegisterEvent entry events))
    | none => none
  | .cancelEvent handle events =>
    match s.entries handle with
    | some entry => some (s.store handle (nwcEpollCancelEvent entry events))
    | none => none
  | .stop => some { s with exit := true }

/-! ## The loop -/

/-- A ready event, with what the callbacks do that it may lead to. -/
structure Ready where
  handle : Nat
  flags : ReadyFlags
  onBroken : List LooperOp
  onInput : List LooperOp
  onOutput : List LooperOp

/-- The looper while the callbacks run: `none` after a call that must not be made. -/
def entryArmed (handle : Nat) : Option NwcEpollLooper → Bool
  | some s =>
    match s.entries handle with
    | some entry => entry.armed
    -- released memory may look like anything
    | none => true
  | none => false

/-- `entry->eh->handle_input(entry->eh)`, or `handle_output`. -/
def callEntry (handle : Nat) (ops : List LooperOp) : Option NwcEpollLooper → Option NwcEpollLooper
  | some s => replay looperOp (s.note (.call (s.ref handle))) ops
  | none => none

/-- One pass of the dispatch loop. -/
def dispatchReady (s : NwcEpollLooper) (r : Ready) : Option NwcEpollLooper :=
  nwcEpollDispatch (entryArmed r.handle) (callEntry r.handle r.onBroken)
    (callEntry r.handle r.onInput) (callEntry r.handle r.onOutput) r.flags (some s)

/-- The loop over `removed_epoll_entrys`: unlink the entry and release it. -/
def releaseRemoved : List Nat → NwcEpollLooper → NwcEpollLooper
  | [], s => s
  | handle :: rest, s => releaseRemoved rest (s.release handle rest)

/-- What follows the dispatch loop. -/
def cleanUp (s : NwcEpollLooper) : NwcEpollLooper :=
  (releaseRemoved s.removedEpollEntrys (s.note .done)).note .clean

/-- The answer of `epoll_wait`. -/
inductive WaitResult where
  | interrupted
  | failed
  | ready (batch : List Ready)

inductive LooperEvent where
  /-- A call before the loop is entered. -/
  | setUp (op : LooperOp)
  /-- An iteration of the loop: the workers, `epoll_wait`, and what it leads to. -/
  | iterate (workers : List LooperOp) (wait : WaitResult)

/-- `epoll_wait` reports entries that are registered when it is called. -/
def looperStep (s : NwcEpollLooper) : LooperEvent → Option NwcEpollLooper
  | .setUp op => looperOp s op
  | .iterate workers wait =>
    -- the loop has been left
    if s.exit ∨ s.failed then none
    else
      match replay looperOp s workers with
      | none => none
      | some s =>
        match wait with
        | .interrupted => some s
        | .failed => some { s with failed := true }
        | .ready batch =>
          if ∀ r ∈ batch, r.handle ∈ s.interest then
            (replay dispatchReady (s.note (.wait (batch.map fun r => s.ref r.handle))) batch).map
              cleanUp
          else none

end Nwchecker
