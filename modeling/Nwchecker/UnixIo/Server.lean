import Nwchecker.Lib.Machine
import Nwchecker.UnixIo.Connection

/-!
# The select server

`nwc_server` of `nwchecker_server.c`: one process, one `select` for all connections. An event is
one return of `select` with the accept behind it, or one pass of the loop over the connections.

The answer to a ping is sent by a loop that passes over every connection whenever `select` returns,
and it asks whether a connection waits to be written, not whether it was read.
-/

namespace Nwchecker.UnixIo

open Descriptors Machine

/-! ## State -/

/-- A connection, with the number of its receives that returned data and of its pongs. -/
structure Peer where
  nwc : NwcConnection
  recvs : Nat
  pongs : Nat
  deriving DecidableEq, Repr

/-- What becomes of the counters. -/
def Peer.after (p : Peer) (v : Visit) : Peer where
  nwc := v.nwc
  recvs := p.recvs + v.received.toNat
  pongs := p.pongs + v.answered.toNat

inductive Phase where
  /-- At the top of `while(1)`. -/
  | top
  /-- In front of connection `i` of the loop, with the sets that `select` has left. -/
  | serving (i : Nat) (readfds writefds : List Int)
  /-- Out of `while(1)`. -/
  | left
  deriving DecidableEq, Repr

/-- `nwc_server`. `peers` is the ring of `nwc_hdr`. -/
structure NwcServer where
  files : Table Unit
  sockFd : Int
  echoMode : Int
  peers : List Peer
  phase : Phase

namespace NwcServer

/-- The return of `select`: the descriptors that are ready, and the answer of `accept`. -/
inductive SelectAnswer where
  | failed (errno : Int)
  | ready (readable writable : List Int) (accept : Except Int Int) (mem : NwcConnection)

inductive Event where
  | select (answer : SelectAnswer)
  | visit (answers : ServeAnswers)

/-! ## The loop -/

/-- The sweep at the top: connections without a descriptor are unlinked and released. -/
def sweep (s : NwcServer) : NwcServer :=
  { s with peers := s.peers.filter fun p => p.nwc.fd ≠ -1 }

/-- `readfds` in front of `select`. -/
def readfds (s : NwcServer) : List Int :=
  s.sockFd :: (s.peers.filter fun p => p.nwc.events.read).map fun p => p.nwc.fd

/-- `writefds` in front of `select`. -/
def writefds (s : NwcServer) : List Int :=
  (s.peers.filter fun p => p.nwc.events.write).map fun p => p.nwc.fd

/-- The end of `nwc_server`. -/
def leave (s : NwcServer) : NwcServer :=
  { s with
    files := (destroyAllNwc s.files (s.peers.map fun p => p.nwc)).closed s.sockFd
    peers := []
    phase := .left }

/-- A connection that was accepted: `events` and `fd` are set. -/
def acceptedPeer (mem : NwcConnection) (fd : Int) : Peer where
  nwc := { allocNwcConn mem fd with events := { read := true, write := false } }
  recvs := 0
  pongs := 0

/-- To the first connection of the loop, or back to the top when there is none. -/
def serve (s : NwcServer) (readfds writefds : List Int) : NwcServer :=
  { s with phase := if s.peers = [] then .top else .serving 0 readfds writefds }

/-- What follows the return of `select`. `none`: `accept` does not return what is open. -/
def selected (s : NwcServer) : SelectAnswer → Option NwcServer
  | .failed errno => some (if errno = EINTR then { s with phase := .top } else s.leave)
  | .ready readable writable accept mem =>
    let readfds := s.readfds.filter (· ∈ readable)
    let writefds := s.writefds.filter (· ∈ writable)
    if s.sockFd ∈ readfds then
      match accept with
      | .error errno => some (if errno ≠ EINTR then s.leave else s.serve readfds writefds)
      | .ok fd =>
        (s.files.opened fd ()).map fun files =>
          { s with
            files := files
            peers := s.peers ++ [acceptedPeer mem fd] }.serve readfds writefds
    else some (s.serve readfds writefds)

/-- Connection `i` of the loop, which is `p`. -/
def visited (s : NwcServer) (i : Nat) (readfds writefds : List Int) (p : Peer) (a : ServeAnswers) :
    NwcServer :=
  let v := serveVisit (s.echoMode ≠ 3) (s.echoMode ≠ 2) (p.nwc.fd ∈ readfds) (p.nwc.fd ∈ writefds)
    p.nwc a
  { s with
    files := if v.left then s.files.closed p.nwc.fd else s.files
    peers := s.peers.set i (Peer.after p v)
    phase := if v.left ∨ i + 1 = s.peers.length then .top else .serving (i + 1) readfds writefds }

def step (s : NwcServer) : Event → Option NwcServer
  | .select answer =>
    match s.phase with
    | .top => s.sweep.selected answer
    | _ => none
  | .visit a =>
    match s.phase with
    | .serving i readfds writefds => (s.peers[i]?).map fun p => s.visited i readfds writefds p a
    | _ => none

/-- In front of the loop, with the listening socket open. -/
def start (files : Table Unit) (sockFd echoMode : Int) : NwcServer where
  files := files
  sockFd := sockFd
  echoMode := echoMode
  peers := []
  phase := .top

/-! ## Pongs and receives -/

/-- On no connection has the server sent more pongs than it has received data. -/
def AnswersOnly (s : NwcServer) : Prop := ∀ p ∈ s.peers, p.pongs ≤ p.recvs

instance (s : NwcServer) : Decidable s.AnswersOnly :=
  inferInstanceAs (Decidable (∀ p ∈ s.peers, p.pongs ≤ p.recvs))

/-- The passes of the loop are called for. -/
def VisitsCalledFor (s : NwcServer) : Event → Prop
  | .select _ => True
  | .visit a =>
    match s.phase with
    | .serving i readfds _ => ∀ p ∈ s.peers[i]?, CalledFor (p.nwc.fd ∈ readfds) p.nwc a
    | _ => True

instance (s : NwcServer) (e : Event) : Decidable (s.VisitsCalledFor e) :=
  match e with
  | .select _ => isTrue trivial
  | .visit a =>
    match h : s.phase with
    | .serving i readfds _ =>
      decidable_of_iff (∀ p ∈ s.peers[i]?, CalledFor (p.nwc.fd ∈ readfds) p.nwc a)
        (by simp [VisitsCalledFor, h])
    | .top => isTrue (by simp [VisitsCalledFor, h])
    | .left => isTrue (by simp [VisitsCalledFor, h])

/-- Every pong, sent or waiting, answers a receive of its own. -/
structure Inv (s : NwcServer) : Prop where
  echo : s.echoMode = 0
  paid : ∀ p ∈ s.peers, p.pongs + p.nwc.owed ≤ p.recvs

variable {s t : NwcServer}

theorem Inv.answersOnly (hi : s.Inv) : s.AnswersOnly := fun p hp =>
  Nat.le_trans (Nat.le_add_right _ _) (hi.paid p hp)

/-- What only forgets connections, or goes elsewhere, keeps the invariant. -/
theorem Inv.of_subset (hi : s.Inv) (hecho : t.echoMode = s.echoMode) (hsub : t.peers ⊆ s.peers) :
    t.Inv where
  echo := hecho.trans hi.echo
  paid := fun p hp => hi.paid p (hsub hp)

theorem Inv.serve (hi : s.Inv) (readfds writefds : List Int) : (s.serve readfds writefds).Inv :=
  hi.of_subset rfl (List.Subset.refl _)

theorem Inv.leave (hi : s.Inv) : s.leave.Inv := hi.of_subset rfl (List.nil_subset _)

/-- A connection that was accepted has received and sent nothing. -/
theorem Inv.accept (hi : s.Inv) (files : Table Unit) (mem : NwcConnection) (fd : Int) :
    Inv { s with files := files, peers := s.peers ++ [acceptedPeer mem fd] } where
  echo := hi.echo
  paid := by
    intro p hp
    rcases List.mem_append.mp hp with hp | hp
    · exact hi.paid p hp
    · rw [List.mem_singleton.mp hp]
      exact Nat.le_refl _

theorem Inv.selected (hi : s.Inv) {answer : SelectAnswer} (h : s.selected answer = some t) :
    t.Inv := by
  cases answer with
  | failed errno =>
    simp only [NwcServer.selected] at h
    split at h
    · cases h
      exact hi.of_subset rfl (List.Subset.refl _)
    · cases h
      exact hi.leave
  | ready readable writable accept mem =>
    simp only [NwcServer.selected] at h
    split at h
    · split at h
      · split at h
        · cases h
          exact hi.leave
        · cases h
          exact hi.serve _ _
      · obtain ⟨files, -, rfl⟩ := Option.map_eq_some_iff.mp h
        exact (hi.accept files mem _).serve _ _
    · cases h
      exact hi.serve _ _

/-- A pass that is called for adds as many pongs, sent or waiting, as it adds receives, or fewer. -/
theorem Inv.visited (hi : s.Inv) {i : Nat} {readfds writefds : List Int} {p : Peer}
    {a : ServeAnswers} (hp : s.peers[i]? = some p)
    (hc : CalledFor (p.nwc.fd ∈ readfds) p.nwc a) : (s.visited i readfds writefds p a).Inv where
  echo := hi.echo
  paid := by
    intro q hq
    rcases List.mem_or_eq_of_mem_set hq with hq | rfl
    · exact hi.paid q hq
    · have hrecvs : decide (s.echoMode ≠ 3) = true := by rw [hi.echo]; rfl
      have hpaid := hi.paid p (List.mem_of_getElem? hp)
      have hpays :=
        @serveVisit_pays (decide (s.echoMode ≠ 2)) (decide (p.nwc.fd ∈ writefds)) _ _ _ hc
      rw [hrecvs]
      dsimp only [Peer.after]
      omega

theorem Inv.step (hi : s.Inv) {e : Event} (hgood : s.VisitsCalledFor e) (h : s.step e = some t) :
    t.Inv := by
  cases e with
  | select answer =>
    simp only [NwcServer.step] at h
    split at h
    · exact (hi.of_subset (t := s.sweep) rfl List.filter_sublist.subset).selected h
    · cases h
  | visit a =>
    simp only [NwcServer.step] at h
    split at h
    · next i readfds writefds hphase =>
      obtain ⟨p, hp, rfl⟩ := Option.map_eq_some_iff.mp h
      simp only [VisitsCalledFor, hphase] at hgood
      exact hi.visited hp (hgood p hp)
    · cases h

theorem start_inv (files : Table Unit) (sockFd : Int) : (start files sockFd 0).Inv where
  echo := rfl
  paid := fun _ hp => absurd hp List.not_mem_nil

/--
**Pongs do not outnumber receives while the loop sends only what is called for.**

In echo mode 0: in a run in which every pass of the loop is over a connection that has a pong to
send from before, or that is read in this pass, or whose transport takes no pong, no connection is
at any time sent more pongs than it had receives with data.
-/
theorem pongs_le_recvs (files : Table Unit) (sockFd : Int) (events : List Event)
    (hgood : Along step (start files sockFd 0) events VisitsCalledFor) (s : NwcServer)
    (hvisit : Visits step (start files sockFd 0) events s) : s.AnswersOnly := by
  exact (visits_invariant (fun _ _ _ hi hg hs => hi.step hg hs) (start_inv files sockFd) hgood
    hvisit).answersOnly

/-- A client connects on the listening socket 3, and gets the descriptor 4. -/
def clientConnects : Event := .select (.ready [3] [] (.ok 4) .blank)

/-- It sends a ping. -/
def clientPings : Event := .select (.ready [4] [] (.error EAGAIN) .blank)

/-- The pong for the new connection is interrupted, and its ping is answered. -/
def pinged : List Event :=
  [clientConnects, .visit { recv := .error EAGAIN, send := .error EINTR }, clientPings,
    .visit { recv := .ok 5, send := .ok 4 }]

theorem pinged_answersOnly : ∃ s,
    replay step (start Table.empty 3 0) pinged = some s ∧ s.AnswersOnly := by
  obtain ⟨s, hs⟩ := Option.isSome_iff_exists.mp
    (show (replay step (start Table.empty 3 0) pinged).isSome by decide +kernel)
  exact ⟨s, hs, pongs_le_recvs Table.empty 3 _ (by decide +kernel) s ⟨_, List.prefix_rfl, hs⟩⟩

/-- Then another client connects, and the first one is sent a second pong. -/
def otherConnects : List Event :=
  pinged ++ [.select (.ready [3] [] (.ok 5) .blank),
    .visit { recv := .error EAGAIN, send := .ok 4 }]

theorem otherConnects_answersTwice : ∃ s,
    replay step (start Table.empty 3 0) otherConnects = some s ∧ ¬s.AnswersOnly := by
  show ∃ s ∈ replay step (start Table.empty 3 0) otherConnects, ¬s.AnswersOnly
  decide +kernel

end NwcServer

end Nwchecker.UnixIo
