import Nwchecker.Lib.Machine
import Nwchecker.Wsa.Table

/-!
# The WSA event server

The loop of `wsaselectdemo_server/nwchecker_server.c`. An iteration packs the table, waits for one
of the events, and goes over the entries from the one that was signalled on. An accepted connection
gets the entry behind the last one, when there is room for it.

The calls of Windows are answered by `EntryAnswers`. What `WSAEnumNetworkEvents` reports may be
anything, since the server does not look at its result.
-/

namespace Nwchecker.Wsa

open Loop Machine

def WSA_MAXIMUM_WAIT_EVENTS : Nat := 64

def SOCKET_ERROR : Int := -1

/-- What Windows answers for one entry. -/
structure EntryAnswers where
  /-- The event is set: `WSAWaitForMultipleEvents` for it alone succeeds. -/
  signalled : Bool
  /-- The bits of `lNetworkEvents`, and the `iErrorCode` of two of them. -/
  fdAccept : Bool
  fdRead : Bool
  fdWrite : Bool
  fdClose : Bool
  acceptError : Int
  readError : Int
  /-- `accept`, and `WSACreateEvent` for the connection. -/
  newfd : Int
  eventNew : Nat
  /-- `recv` and `send`, and whether `errno` is `EWOULDBLOCK` then. -/
  recv : Int
  recvWouldBlock : Bool
  send : Int
  sendWouldBlock : Bool
  deriving DecidableEq, Repr

structure Server where
  tables : Tables
  nrEvents : Nat
  /-- What has come into the table: the event from `WSACreateEvent`, the socket from `accept`. -/
  made : List Entry
  /-- What `WSACloseEvent` has been called with, and `closesocket` in the loop. -/
  closed : List Nat
  shut : List Int
  /-- Every index at which the arrays have been read or written. -/
  used : List Nat
  /-- The loop has not been left. -/
  running : Bool

/-- What the first `WSAWaitForMultipleEvents` of an iteration answers. -/
inductive Event where
  | failed
  | signalled (nIndex : Nat) (answers : Nat → EntryAnswers)

namespace Server

/-- `closesocket(fd); sockfds[n] = -1;` -/
def drop (s : Server) (n : Nat) (fd : Int) : Server :=
  { s with
    tables := { s.tables with sockfds := Function.update s.tables.sockfds n INVALID_SOCKET }
    shut := s.shut ++ [fd] }

/-- `ioevents[n] = io` -/
def setIoevent (s : Server) (n : Nat) (io : Int32) : Server :=
  { s with tables := { s.tables with ioevents := Function.update s.tables.ioevents n io } }

/-- The arrays are used at the indices `is`. -/
def use (s : Server) (is : List Nat) : Server := { s with used := s.used ++ is }

/-- An entry behind the last one. -/
def append (s : Server) (e : Entry) : Server :=
  { s with
    tables := s.tables.put s.nrEvents e
    nrEvents := s.nrEvents + 1
    made := s.made ++ [e]
    used := s.used ++ [s.nrEvents] }

/-- `FD_ACCEPT` -/
def acceptConnection (a : EntryAnswers) (s : Server) : Server :=
  if a.acceptError = 0 then
    if s.nrEvents ≥ WSA_MAXIMUM_WAIT_EVENTS then s
    else if a.newfd ≠ INVALID_SOCKET then
      s.append { event := a.eventNew, sockfd := a.newfd, ioevent := 1 }
    else s
  else s

/-- `FD_READ` -/
def receive (n : Nat) (fd : Int) (a : EntryAnswers) (s : Server) : Flow Server Server :=
  if a.fdRead && a.readError = 0 then
    if a.recv = 0 then .leave (s.drop n fd)
    else if a.recv = SOCKET_ERROR && !a.recvWouldBlock then .leave (s.drop n fd)
    else .again s
  else .again s

/-- The pong, unless one has to wait for `FD_WRITE`. -/
def pong (n : Nat) (fd : Int) (a : EntryAnswers) (s : Server) : Flow Server Server :=
  if s.tables.sockfds n ≠ INVALID_SOCKET ∧ (s.tables.ioevents n &&& 2 = 0 ∨ a.fdWrite = true) then
    let s :=
      if s.tables.ioevents n &&& 2 ≠ 0 then s.setIoevent n (s.tables.ioevents n &&& 1) else s
    if a.send = SOCKET_ERROR then
      if a.sendWouldBlock then .again (s.setIoevent n (s.tables.ioevents n ||| 2))
      else .leave (s.drop n fd)
    else .again s
  else .again s

/-- `FD_CLOSE` -/
def closing (n : Nat) (fd : Int) (a : EntryAnswers) (s : Server) : Server :=
  if s.tables.sockfds n ≠ INVALID_SOCKET ∧ a.fdClose = true then s.drop n fd else s

/-- The body of the `for` loop over the entries. `leave` is its `break`. -/
def visit (i : Nat × EntryAnswers) (s : Server) : Flow Server Server :=
  let n := i.1
  let a := i.2
  let s := s.use [n]
  let fd := s.tables.sockfds n
  if a.signalled = false then .again s
  else if a.fdAccept then .again (s.acceptConnection a)
  else
    match s.receive n fd a with
    | .leave s => .leave s
    | .again s =>
      match s.pong n fd a with
      | .leave s => .leave s
      | .again s => .again (s.closing n fd a)

/-- `for (int n = nIndex; n < tmp_nr_events; n++)` -/
def visitAll (nIndex : Nat) (answers : Nat → EntryAnswers) (s : Server) : Server :=
  let entries := List.range' nIndex (s.nrEvents - nIndex)
  match passes visit (entries.map fun n => (n, answers n)) s with
  | .again s => s
  | .leave s => s

/-- The table after the compaction, and the wait for all that is left. -/
def compacted (s : Server) (c : Compaction) : Server :=
  { s with
    tables := c.tables
    nrEvents := c.lidx
    closed := s.closed ++ c.closed
    used := s.used ++ c.used ++ List.range c.lidx }

/-- One iteration of the loop. The system waits for at most all of the events. -/
def step (s : Server) (e : Event) : Option Server :=
  if s.running then
    match compact (2 * s.nrEvents + 2) s.nrEvents s.tables with
    | none => none
    | some c =>
      match e with
      | .failed => some { s.compacted c with running := false }
      | .signalled nIndex answers =>
        if nIndex < c.lidx then some ((s.compacted c).visitAll nIndex answers) else none
  else none

/-- In front of the loop: the listening socket, which has the first entry. -/
def start (listenEvent : Nat) (sockFd : Int) : Server where
  tables :=
    { events := Function.update (fun _ => 0) 0 listenEvent
      sockfds := Function.update (fun _ => 0) 0 sockFd
      ioevents := fun _ => 0 }
  nrEvents := 1
  made := [{ event := listenEvent, sockfd := sockFd, ioevent := 0 }]
  closed := []
  shut := []
  used := [0]
  running := true

/-! ## The arrays are large enough -/

/-- The invariant of the loop. -/
structure Bounded (s : Server) : Prop where
  count : s.nrEvents ≤ WSA_MAXIMUM_WAIT_EVENTS
  used : ∀ i ∈ s.used, i < WSA_MAXIMUM_WAIT_EVENTS

variable {s s' : Server} {n : Nat} {a : EntryAnswers} {e : Event} {es : List Event}

theorem bounded_start (listenEvent : Nat) (sockFd : Int) : (start listenEvent sockFd).Bounded where
  count := Nat.le_of_ble_eq_true rfl
  used := by
    intro i hi
    rw [List.mem_singleton.mp hi]
    decide

theorem Bounded.use (h : s.Bounded) (hn : n < WSA_MAXIMUM_WAIT_EVENTS) :
    (s.use [n]).Bounded where
  count := h.count
  used := List.forall_mem_append.mpr ⟨h.used, List.forall_mem_singleton.mpr hn⟩

/-- What changes an entry in its place does not count. -/
theorem Bounded.drop (h : s.Bounded) (n : Nat) (fd : Int) : (s.drop n fd).Bounded :=
  ⟨h.count, h.used⟩

theorem Bounded.setIoevent (h : s.Bounded) (n : Nat) (io : Int32) : (s.setIoevent n io).Bounded :=
  ⟨h.count, h.used⟩

/-- The check at `accept`. -/
theorem Bounded.acceptConnection (h : s.Bounded) (a : EntryAnswers) :
    (s.acceptConnection a).Bounded := by
  unfold Server.acceptConnection
  split
  · split
    · exact h
    · next hroom =>
      split
      · have hlt : s.nrEvents < WSA_MAXIMUM_WAIT_EVENTS := Nat.lt_of_not_ge hroom
        exact ⟨hlt, (h.use hlt).used⟩
      · exact h
  · exact h

/-- What holds of both ways out of a part of the body. -/
def Both (P : Server → Prop) (f : Flow Server Server) : Prop :=
  (∀ s, f = .again s → P s) ∧ ∀ s, f = .leave s → P s

theorem Bounded.receive (h : s.Bounded) (n : Nat) (fd : Int) (a : EntryAnswers) :
    Both Bounded (s.receive n fd a) := by
  unfold Server.receive
  split
  · split
    · exact Flow.at_leave (h.drop n fd)
    · split
      · exact Flow.at_leave (h.drop n fd)
      · exact Flow.at_again h
  · exact Flow.at_again h

theorem Bounded.pong (h : s.Bounded) (n : Nat) (fd : Int) (a : EntryAnswers) :
    Both Bounded (s.pong n fd a) := by
  unfold Server.pong
  split
  · have hmasked : Bounded
        (if s.tables.ioevents n &&& 2 ≠ 0 then s.setIoevent n (s.tables.ioevents n &&& 1)
          else s) := by
      split
      · exact h.setIoevent n _
      · exact h
    dsimp only
    split
    · split
      · exact Flow.at_again (hmasked.setIoevent n _)
      · exact Flow.at_leave (hmasked.drop n fd)
    · exact Flow.at_again hmasked
  · exact Flow.at_again h

theorem Bounded.closing (h : s.Bounded) (n : Nat) (fd : Int) (a : EntryAnswers) :
    (s.closing n fd a).Bounded := by
  unfold Server.closing
  split
  · exact h.drop n fd
  · exact h

/-- One entry. -/
theorem Bounded.visit (h : s.Bounded) (hn : n < WSA_MAXIMUM_WAIT_EVENTS) (a : EntryAnswers) :
    Both Bounded (s.visit (n, a)) := by
  have hused : (s.use [n]).Bounded := h.use hn
  unfold Server.visit
  dsimp only
  split
  · exact Flow.at_again hused
  · split
    · exact Flow.at_again (hused.acceptConnection a)
    · obtain ⟨hagain, hleave⟩ := hused.receive n (s.tables.sockfds n) a
      split
      · next t ht => exact Flow.at_leave (hleave t ht)
      · next t ht =>
        obtain ⟨hagain', hleave'⟩ := (hagain t ht).pong n (s.tables.sockfds n) a
        split
        · next u hu => exact Flow.at_leave (hleave' u hu)
        · next u hu => exact Flow.at_again ((hagain' u hu).closing n _ a)

/-- All entries from the signalled one on. -/
theorem Bounded.visitAll (h : s.Bounded) (nIndex : Nat) (answers : Nat → EntryAnswers) :
    (s.visitAll nIndex answers).Bounded := by
  have hentries : ∀ i ∈ (List.range' nIndex (s.nrEvents - nIndex)).map fun n => (n, answers n),
      i.1 < WSA_MAXIMUM_WAIT_EVENTS := by
    intro i hi
    obtain ⟨n, hn, rfl⟩ := List.mem_map.mp hi
    obtain ⟨hle, hlt⟩ := List.mem_range'_1.mp hn
    have hbound : n < s.nrEvents := by omega
    exact Nat.lt_of_lt_of_le hbound h.count
  obtain ⟨hagain, hleave⟩ := passes_rule (P := Bounded) (Q := Bounded)
    (fun i t t' hi ht hv => (ht.visit hi i.2).1 t' hv)
    (fun i t t' hi ht hv => (ht.visit hi i.2).2 t' hv) _ hentries h
  unfold Server.visitAll
  dsimp only
  split
  · next t ht => exact hagain t ht
  · next t ht => exact hleave t ht

/-- The compaction looks at entries of the table only, and there are no more of them behind it. -/
theorem Bounded.compacted {c : Compaction} (h : s.Bounded)
    (hc : Compacted s.tables s.nrEvents c) : (s.compacted c).Bounded where
  count := Nat.le_trans hc.le h.count
  used := by
    have hall : ∀ i, i < s.nrEvents → i < WSA_MAXIMUM_WAIT_EVENTS :=
      fun i hi => Nat.lt_of_lt_of_le hi h.count
    refine List.forall_mem_append.mpr ⟨List.forall_mem_append.mpr ⟨h.used, ?_⟩, ?_⟩
    · exact fun i hi => hall i (hc.used i hi)
    · exact fun i hi => hall i (Nat.lt_of_lt_of_le (List.mem_range.mp hi) hc.le)

/-- What an iteration can do. The compaction always comes to its end. -/
theorem step_cases (h : step s e = some s') : ∃ c, Compacted s.tables s.nrEvents c ∧
    ((e = .failed ∧ s' = { s.compacted c with running := false }) ∨
      ∃ nIndex answers, e = .signalled nIndex answers ∧ nIndex < c.lidx ∧
        s' = (s.compacted c).visitAll nIndex answers) := by
  obtain ⟨c, hc, hcompacted⟩ :=
    compact_compacted s.tables s.nrEvents (Nat.lt_succ_self (2 * s.nrEvents + 1))
  unfold step at h
  split at h
  · rw [hc] at h
    cases e with
    | failed =>
      cases h
      exact ⟨c, hcompacted, .inl ⟨rfl, rfl⟩⟩
    | signalled nIndex answers =>
      dsimp only at h
      split at h
      · next hlt =>
        cases h
        exact ⟨c, hcompacted, .inr ⟨nIndex, answers, rfl, hlt, rfl⟩⟩
      · cases h
  · cases h

theorem Bounded.step (h : s.Bounded) (hstep : step s e = some s') : s'.Bounded := by
  obtain ⟨c, hc, ⟨-, rfl⟩ | ⟨nIndex, answers, -, -, rfl⟩⟩ := step_cases hstep
  · exact ⟨(h.compacted hc).count, (h.compacted hc).used⟩
  · exact (h.compacted hc).visitAll nIndex answers

/-- **The table is packed, and the arrays are large enough.** The loop that packs it terminates for
every table; in every run of the server no index is used that the arrays do not have. -/
theorem tables_packed {listenEvent : Nat} {sockFd : Int}
    (h : replay step (start listenEvent sockFd) es = some s) :
    (∀ t nrEvents fuel, 2 * nrEvents + 1 < fuel →
      ∃ c, compact fuel nrEvents t = some c ∧ Compacted t nrEvents c) ∧
    ∀ i ∈ s.used, i < WSA_MAXIMUM_WAIT_EVENTS := by
  refine ⟨fun t nrEvents _ => compact_compacted t nrEvents, ?_⟩
  have hbounded : s.Bounded := replay_invariant (I := fun _ => True)
    (fun _ _ _ _ ht hstep => Bounded.step ht hstep) (fun _ _ => trivial)
    (bounded_start listenEvent sockFd) h
  exact hbounded.used

/-- No event has been set. -/
def idle : EntryAnswers where
  signalled := false
  fdAccept := false
  fdRead := false
  fdWrite := false
  fdClose := false
  acceptError := 0
  readError := 0
  newfd := INVALID_SOCKET
  eventNew := 0
  recv := 0
  recvWouldBlock := false
  send := 4
  sendWouldBlock := false

/-- The event of one entry is set. -/
def onlyAt (n : Nat) (a : EntryAnswers) (m : Nat) : EntryAnswers :=
  if m = n then { a with signalled := true } else idle

/-- Two clients connect, and the first one leaves. -/
def oneLeaves : List Event :=
  [.signalled 0 (onlyAt 0 { idle with fdAccept := true, newfd := 5, eventNew := 50 }),
    .signalled 0 (onlyAt 0 { idle with fdAccept := true, newfd := 6, eventNew := 60 }),
    .signalled 1 (onlyAt 1 { idle with fdRead := true }),
    .failed]

/-- The event of the first one is closed, and the other one moves to its place. -/
theorem oneLeaves_packed : ∃ s, replay step (start 40 4) oneLeaves = some s ∧ s.closed = [50] ∧
    s.nrEvents = 2 ∧ s.tables.entry 1 = { event := 60, sockfd := 6, ioevent := 1 } ∧
      ∀ i ∈ s.used, i < WSA_MAXIMUM_WAIT_EVENTS := by
  have hrun : (replay step (start 40 4) oneLeaves).map
      (fun s => (s.closed, s.nrEvents, s.tables.entry 1)) =
        some ([50], 2, { event := 60, sockfd := 6, ioevent := 1 }) := by decide +kernel
  obtain ⟨s, hs, hfacts⟩ := Option.map_eq_some_iff.mp hrun
  simp only [Prod.mk.injEq] at hfacts
  obtain ⟨hclosed, hcount, hentry⟩ := hfacts
  exact ⟨s, hs, hclosed, hcount, hentry, (tables_packed hs).2⟩

end Server

end Nwchecker.Wsa
