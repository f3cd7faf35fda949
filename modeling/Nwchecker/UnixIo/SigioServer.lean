import Nwchecker.Lib.Machine
import Nwchecker.UnixIo.Connection

/-!
# The datagram server on `SIGIO`

`sigio_udp_server.c`: the handler takes the datagrams off the socket and hangs a connection for each
on `nwc_hdr`, and the main loop answers them. The machine starts behind `bind`, so that datagrams
may arrive from then on, at any point of the set-up.

`step` runs the statements of the main program and of the handler one by one, with arrivals and the
delivery of the signal in between. `SIGIO` is raised at an arrival once `O_ASYNC` and the owner are
set, and stays pending while it is blocked or the handler runs.
-/

namespace Nwchecker.UnixIo

open Descriptors Machine

/-- Where `sigio_udp_server` is: what it did last, or is in front of. -/
inductive MainPc where
  | bound
  | installed
  | owned
  /-- `O_NONBLOCK` and `O_ASYNC` are set. -/
  | async
  /-- At the top of `while(1)`, with `SIGIO` blocked. -/
  | top
  | suspended
  /-- At the test of the `for` loop. -/
  | answering
  | returned
  deriving DecidableEq, Repr

/-- A call of `sendto`. -/
structure Pong where
  addr : SockAddr
  /-- `sock_fd` is open. -/
  opened : Bool
  deriving DecidableEq, Repr

/-- The server, its socket, and what has happened. A datagram is known by where it comes from. -/
structure SigioServer where
  sockFd : Int
  files : Table Unit
  pc : MainPc
  /-- `sigio_handler` runs. -/
  handling : Bool
  nwcHdr : List NwcConnection
  /-- The receive queue of the socket. -/
  queue : List SockAddr
  /-- `SIGIO` is pending. -/
  pending : Bool
  /-- The datagrams that arrived, and how many of them before `O_ASYNC` was set. -/
  arrived : List SockAddr
  silent : Nat
  /-- The datagrams that `recvfrom` returned. -/
  taken : List SockAddr
  pongs : List Pong
  /-- What `free_nwc_conn` closed. -/
  closed : List Int

namespace SigioServer

/-- `free_nwc_conn`. With its last descriptor, the socket loses its queue. -/
def free (s : SigioServer) (nwc : NwcConnection) : SigioServer :=
  { s with
    files := freeNwcConn s.files nwc
    closed := if (s.files.file nwc.fd).isSome then s.closed ++ [nwc.fd] else s.closed
    queue := if nwc.fd = s.sockFd then [] else s.queue }

/-- `sendto`. What it returns is only printed. -/
def sendto (s : SigioServer) (addr : SockAddr) : SigioServer :=
  { s with pongs := s.pongs ++ [{ addr := addr, opened := (s.files.file s.sockFd).isSome }] }

/-- A pass of the `for` loop. -/
def answer (s : SigioServer) (nwc : NwcConnection) (rest : List NwcConnection) : SigioServer :=
  { s.sendto nwc.addr with nwcHdr := rest }.free nwc

/-- The next statement of `sigio_udp_server`. `rc` is what `sigaction` returns. -/
def main (s : SigioServer) (rc : Int) : Option SigioServer :=
  match s.pc with
  | .bound => some { s with pc := if rc = -1 then .returned else .installed }
  | .installed => some { s with pc := .owned }
  | .owned => some { s with pc := .async }
  | .async => some { s with pc := .top }
  | .top => some { s with pc := if s.nwcHdr = [] then .suspended else .answering }
  | .suspended => none
  | .answering =>
    match s.nwcHdr with
    | [] => some { s with pc := .top }
    | nwc :: rest => some (s.answer nwc rest)
  | .returned => none

/-- `O_ASYNC` is set. -/
def isAsync : MainPc → Bool
  | .bound | .installed | .owned | .returned => false
  | .async | .top | .suspended | .answering => true

/-- `SIGIO` is not blocked by the main program. -/
def unblocked : MainPc → Bool
  | .bound | .installed | .owned | .async | .suspended | .returned => true
  | .top | .answering => false

/-- A datagram arrives. -/
def arrive (s : SigioServer) (d : SockAddr) : SigioServer :=
  { s with
    queue := s.queue ++ [d]
    arrived := s.arrived ++ [d]
    pending := s.pending || isAsync s.pc
    silent := if isAsync s.pc then s.silent else s.silent + 1 }

/-- `recvfrom`: the datagram, and the queue without it. It may fail for another reason, too. -/
def recvfrom (s : SigioServer) (fails : Bool) : Option (SockAddr × List SockAddr) :=
  match s.queue with
  | [] => none
  | d :: rest => if fails || (s.files.file s.sockFd).isNone then none else some (d, rest)

/-- `recvfrom` returned -1: the handler returns, and with it `sigsuspend`. -/
def handled (s : SigioServer) (nwc : NwcConnection) : SigioServer :=
  { s.free nwc with
    handling := false
    pc := if s.pc = .suspended then .answering else s.pc }

/-- A datagram comes onto the list. -/
def take (s : SigioServer) (nwc : NwcConnection) (d : SockAddr) (rest : List SockAddr) :
    SigioServer :=
  { s with
    queue := rest
    taken := s.taken ++ [d]
    nwcHdr := s.nwcHdr ++ [{ nwc with addr := d }] }

/-- A pass of `while(1)` in `sigio_handler`, whose `malloc` returns `mem`. -/
def handle (s : SigioServer) (mem : NwcConnection) (fails : Bool) : SigioServer :=
  let nwc := { allocNwcConnArg0 mem with addr := { port := 0, addr := 0 } }
  match s.recvfrom fails with
  | none => s.handled nwc
  | some (d, rest) => s.take nwc d rest

/-! ## The machine -/

inductive Event where
  | main (rc : Int)
  | arrive (d : SockAddr)
  /-- `SIGIO` is delivered. -/
  | deliver
  | handle (mem : NwcConnection) (fails : Bool)

def step (s : SigioServer) : Event → Option SigioServer
  | .main rc => if s.handling = false then s.main rc else none
  | .arrive d => if (s.files.file s.sockFd).isSome then some (s.arrive d) else none
  | .deliver =>
    if s.pending = true ∧ s.handling = false ∧ unblocked s.pc = true then
      some { s with pending := false, handling := true }
    else none
  | .handle mem fails => if s.handling = true then some (s.handle mem fails) else none

/-- Behind `bind`. -/
def start (files : Table Unit) (sockFd : Int) : Option SigioServer :=
  (files.opened sockFd ()).map fun files =>
    { sockFd := sockFd
      files := files
      pc := .bound
      handling := false
      nwcHdr := []
      queue := []
      pending := false
      arrived := []
      silent := 0
      taken := []
      pongs := []
      closed := [] }

/-- The connection that an event frees. -/
def freed (s : SigioServer) : Event → Option NwcConnection
  | .main _ => if s.pc = .answering then s.nwcHdr.head? else none
  | .handle mem fails => if (s.recvfrom fails).isNone then some mem else none
  | _ => none

/-! ## What is closed -/

variable {s t : SigioServer}

/-- No connection has closed anything, and the socket is open. -/
structure ClosesNothing (s : SigioServer) : Prop where
  closed : s.closed = []
  opened : s.files.file s.sockFd ≠ none

/-- The memory of the connection that is freed does not name an open descriptor. -/
def FreesNothing (s : SigioServer) (e : Event) : Prop :=
  ∀ nwc ∈ s.freed e, s.files.file nwc.fd = none

instance (s : SigioServer) (e : Event) : Decidable (s.FreesNothing e) :=
  inferInstanceAs (Decidable (∀ nwc ∈ s.freed e, s.files.file nwc.fd = none))

/-- A statement of the main program answers a connection, or moves on and does nothing else. -/
theorem main_cases {rc : Int} (h : s.main rc = some t) :
    (∃ nwc rest, s.pc = .answering ∧ s.nwcHdr = nwc :: rest ∧ t = s.answer nwc rest) ∨
      ∃ pc, t = { s with pc := pc } ∧ s.freed (.main rc) = none ∧
        (isAsync pc = false → isAsync s.pc = false) ∧
        (pc = .suspended → s.pc = .top ∧ s.nwcHdr = []) := by
  unfold main at h
  cases hpc : s.pc with
  | bound =>
    rw [hpc] at h
    cases h
    refine Or.inr ⟨_, rfl, by simp [freed, hpc], fun _ => rfl, ?_⟩
    split
    · exact fun hsusp => by cases hsusp
    · exact fun hsusp => by cases hsusp
  | installed =>
    rw [hpc] at h
    cases h
    exact Or.inr ⟨_, rfl, by simp [freed, hpc], fun _ => rfl, by simp⟩
  | owned =>
    rw [hpc] at h
    cases h
    exact Or.inr ⟨_, rfl, by simp [freed, hpc], fun _ => rfl, by simp⟩
  | async =>
    rw [hpc] at h
    cases h
    exact Or.inr ⟨_, rfl, by simp [freed, hpc], by simp [isAsync], by simp⟩
  | top =>
    rw [hpc] at h
    cases h
    refine Or.inr ⟨_, rfl, by simp [freed, hpc], ?_, ?_⟩
    · split
      · exact fun hnot => by cases hnot
      · exact fun hnot => by cases hnot
    · split
      · next hnil => exact fun _ => ⟨rfl, hnil⟩
      · exact fun hsusp => by cases hsusp
  | suspended =>
    rw [hpc] at h
    cases h
  | answering =>
    rw [hpc] at h
    dsimp only at h
    split at h
    · next hnil =>
      cases h
      exact Or.inr ⟨_, rfl, by simp [freed, hpc, hnil], by simp [isAsync], by simp⟩
    · next nwc rest hcons =>
      cases h
      exact Or.inl ⟨nwc, rest, rfl, hcons, rfl⟩
  | returned =>
    rw [hpc] at h
    cases h

/-- Descriptors are closed by `free_nwc_conn` and by nothing else. -/
theorem step_frees {e : Event} (h : s.step e = some t) : t.sockFd = s.sockFd ∧
    ((s.freed e = none ∧ t.files = s.files ∧ t.closed = s.closed) ∨
      ∃ nwc, s.freed e = some nwc ∧ t.files = (s.free nwc).files ∧
        t.closed = (s.free nwc).closed) := by
  cases e with
  | main rc =>
    simp only [step] at h
    split at h
    · rcases main_cases h with ⟨nwc, rest, hpc, hhdr, rfl⟩ | ⟨pc, rfl, hfreed, -⟩
      · exact ⟨rfl, Or.inr ⟨nwc, by simp [freed, hpc, hhdr], rfl, rfl⟩⟩
      · exact ⟨rfl, Or.inl ⟨hfreed, rfl, rfl⟩⟩
    · cases h
  | arrive d =>
    simp only [step] at h
    split at h
    · cases h
      exact ⟨rfl, Or.inl ⟨rfl, rfl, rfl⟩⟩
    · cases h
  | deliver =>
    simp only [step] at h
    split at h
    · cases h
      exact ⟨rfl, Or.inl ⟨rfl, rfl, rfl⟩⟩
    · cases h
  | handle mem fails =>
    simp only [step] at h
    split at h
    · cases h
      unfold handle
      cases hrecv : s.recvfrom fails with
      | none => exact ⟨rfl, Or.inr ⟨mem, by simp [freed, hrecv], rfl, rfl⟩⟩
      | some r => exact ⟨rfl, Or.inl ⟨by simp [freed, hrecv], rfl, rfl⟩⟩
    · cases h

theorem freeNwcConn_of_none {files : Table Unit} {nwc : NwcConnection}
    (h : files.file nwc.fd = none) : freeNwcConn files nwc = files := by
  unfold freeNwcConn
  split
  · exact Table.closed_of_none h
  · rfl

theorem ClosesNothing.step (hc : s.ClosesNothing) {e : Event} (he : s.FreesNothing e)
    (h : s.step e = some t) : t.ClosesNothing := by
  obtain ⟨hsock, ⟨-, hfiles, hclosed⟩ | ⟨nwc, hfreed, hfiles, hclosed⟩⟩ := step_frees h
  · constructor
    · rw [hclosed]
      exact hc.closed
    · rw [hfiles, hsock]
      exact hc.opened
  · have hnone := he nwc hfreed
    constructor
    · rw [hclosed]
      simp [free, hnone, hc.closed]
    · rw [hfiles, hsock]
      simp only [free, freeNwcConn_of_none hnone]
      exact hc.opened

theorem step_closes {e : Event} (he : ¬s.FreesNothing e) (h : s.step e = some t) :
    ¬t.ClosesNothing := by
  intro hc
  simp only [FreesNothing, not_forall] at he
  obtain ⟨nwc, hnwc, hopen⟩ := he
  obtain ⟨-, ⟨hnone, -⟩ | ⟨nwc', hfreed, -, hclosed⟩⟩ := step_frees h
  · rw [hnone] at hnwc
    cases hnwc
  · rw [Option.mem_def, hfreed, Option.some.injEq] at hnwc
    rw [hnwc] at hclosed
    have hnil := hc.closed
    rw [hclosed] at hnil
    simp [free, Option.isSome_iff_ne_none, hopen] at hnil

theorem start_closesNothing {files : Table Unit} {sockFd : Int} (h : start files sockFd = some s) :
    s.ClosesNothing := by
  obtain ⟨files', hopen, rfl⟩ := Option.map_eq_some_iff.mp h
  obtain ⟨-, -, hself, -⟩ := Table.opened_cases hopen
  exact ⟨rfl, by simp [hself]⟩

/--
**When the connections close only what is theirs, which is nothing.**

A connection that `alloc_nwc_conn_arg0` has made has not opened a descriptor. In a run, no
`free_nwc_conn` closes one and the socket stays open exactly if the `fd` that `malloc` left in a
connection is not the number of an open descriptor when the connection is freed.
-/
theorem closesNothing_iff (files : Table Unit) (sockFd : Int) (events : List Event)
    (s s' : SigioServer) (hstart : start files sockFd = some s)
    (hrun : replay step s events = some s') :
    (∀ t, Visits step s events t → t.ClosesNothing) ↔ Along step s events FreesNothing :=
  exact_rule (fun _ hc => hc) (fun _ _ _ hc he hstep => hc.step he hstep)
    (fun _ _ _ _ he hstep => step_closes he hstep) (start_closesNothing hstart) hrun

/-- A server on the socket 3. -/
def sampleStart : Option SigioServer := start Table.empty 3

/-- The set-up, up to `sigsuspend`. -/
def setsUp : List Event := [.main 0, .main 0, .main 0, .main 0, .main 0]

def sampleAddr : SockAddr := { port := 800, addr := 1 }

/-- A datagram arrives and is taken by the handler, whose memory has `fd` in it. -/
def takesOne (fd : Int) : List Event :=
  [.arrive sampleAddr, .deliver, .handle { NwcConnection.blank with fd := fd } false,
    .handle { NwcConnection.blank with fd := fd } false]

theorem clearMemory_closesNothing : ∃ s s', sampleStart = some s ∧
    replay step s (setsUp ++ takesOne (-1) ++ [.main 0, .main 0]) = some s' ∧
    ∀ t, Visits step s (setsUp ++ takesOne (-1) ++ [.main 0, .main 0]) t → t.ClosesNothing := by
  obtain ⟨s, hs, hrun, hfrees⟩ : ∃ s ∈ sampleStart,
      (replay step s (setsUp ++ takesOne (-1) ++ [.main 0, .main 0])).isSome ∧
        Along step s (setsUp ++ takesOne (-1) ++ [.main 0, .main 0]) FreesNothing := by
    decide +kernel
  obtain ⟨s', hs'⟩ := Option.isSome_iff_exists.mp hrun
  exact ⟨s, s', hs, hs', (closesNothing_iff _ _ _ s s' hs hs').mpr hfrees⟩

/-- With the number of the socket in the memory, the handler closes the socket. -/
theorem sockInMemory_closed : ∃ s s', sampleStart = some s ∧
    replay step s (setsUp ++ takesOne 3) = some s' ∧ ¬s'.ClosesNothing := by
  obtain ⟨s, hs, s', hs', hclosed⟩ : ∃ s ∈ sampleStart,
      ∃ s' ∈ replay step s (setsUp ++ takesOne 3), s'.closed = [3] := by
    decide +kernel
  refine ⟨s, s', hs, hs', fun hc => ?_⟩
  have hnil := hc.closed
  rw [hclosed] at hnil
  cases hnil

end SigioServer

end Nwchecker.UnixIo
