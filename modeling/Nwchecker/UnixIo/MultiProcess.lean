import Mathlib.Data.List.Nodup
import Mathlib.Data.List.Range
import Nwchecker.Lib.Machine
import Nwchecker.UnixIo.Connection

/-!
# The select server with worker processes

`nwchecker_server_multiprocess.c`: the master accepts connections and passes their descriptors on to
four workers, and all five processes run the same function `worker` with different contexts. A
process is modelled with its own table of open descriptors.

What the processes pass to `FD_SET` and `FD_ISSET` is noted, with whether it was open, and so is the
worker to which the master sent each descriptor. An event is one return of `select` with what is
done about it, or one pass of the loop over the connections; what an event leads to goes on to the
next call of `select`, so that the sets for it are filled within the event.
-/

namespace Nwchecker.UnixIo

open Descriptors Machine

def FD_SETSIZE : Int := 1024
def CMD_EXIT : Int := 1
def CMD_FD : Int := 2

/-! ## State -/

/-- `struct worker_context`. `nwcHdr` is the ring of `nwc_hdr`. -/
structure WorkerContext where
  notifyFd : Int × Int
  listenFd : Int
  nwcHdr : List NwcConnection

/-- A call of `FD_SET` or `FD_ISSET`. -/
structure FdUse where
  fd : Int
  /-- The descriptor is open. -/
  opened : Bool
  deriving DecidableEq, Repr

inductive WorkerPhase where
  /-- In `select`. -/
  | waiting (readfds writefds : List Int)
  /-- In front of connection `i` of the loop, with the sets that `select` has left. -/
  | serving (i : Nat) (readfds writefds : List Int)
  /-- Out of `worker`. -/
  | left
  deriving DecidableEq, Repr

/-- A process in `worker`. `dispatched` are the workers that were sent a descriptor. -/
structure WorkerProcess where
  files : Table Unit
  ctx : WorkerContext
  currentWorkerIndex : Nat
  phase : WorkerPhase
  uses : List FdUse
  dispatched : List Nat

namespace WorkerProcess

/-! ## In front of `select` -/

/-- The descriptors of the context that are not `-1`: `notify_fd[1]` and `listen_fd`. -/
def ownFds (ctx : WorkerContext) : List Int := [ctx.notifyFd.2, ctx.listenFd].filter (· ≠ -1)

/-- The connections with bit 1, and those with bit 2, of `events`. -/
def readers (hdr : List NwcConnection) : List Int :=
  (hdr.filter fun c => c.events.read).map fun c => c.fd

def writers (hdr : List NwcConnection) : List Int :=
  (hdr.filter fun c => c.events.write).map fun c => c.fd

/-- `FD_SET` or `FD_ISSET` with each of these descriptors. -/
def use (p : WorkerProcess) (fds : List Int) : WorkerProcess :=
  { p with uses := p.uses ++ fds.map fun fd => ⟨fd, (p.files.file fd).isSome⟩ }

/-- The calls of `FD_SET` of the sweep, for the connections that are not released. -/
def sweepSets (hdr : List NwcConnection) : List Int :=
  hdr.flatMap fun c =>
    (if c.events.read then [c.fd] else []) ++ (if c.events.write then [c.fd] else [])

/-- The top of `while(!stop)`, up to `select`. A connection with `fd == -1` is released. -/
def top (p : WorkerProcess) : WorkerProcess :=
  let hdr := p.ctx.nwcHdr.filter fun c => c.fd ≠ -1
  { p.use (ownFds p.ctx ++ sweepSets hdr) with
    ctx := { p.ctx with nwcHdr := hdr }
    phase := .waiting (ownFds p.ctx ++ readers hdr) (writers hdr) }

/-- Behind the loop. -/
def leave (p : WorkerProcess) : WorkerProcess :=
  { p with
    files := (destroyAllNwc p.files p.ctx.nwcHdr).closed p.ctx.notifyFd.2
    ctx := { p.ctx with nwcHdr := [] }
    phase := .left }

/-! ## Behind `select` -/

/-- `get_worker`: the index of the worker. -/
def getWorker (p : WorkerProcess) : Nat × WorkerProcess :=
  let i := p.currentWorkerIndex % 4
  (i, { p with currentWorkerIndex := i + 1 })

/-- `send_cmd`, which asks for a worker of its own and does not use it. -/
def sendCmd (p : WorkerProcess) : WorkerProcess := p.getWorker.2

/-- `worker_recv_msg`: `cmd`, and the descriptor that came with it. -/
structure WorkerMsg where
  cmd : Int
  fd : Option Int

/-- A descriptor that arrives with a message. -/
def receiveFd (p : WorkerProcess) : Option Int → Option WorkerProcess
  | none => some p
  | some fd => (p.files.opened fd ()).map fun files => { p with files := files }

/-- A connection for the descriptor `fd`, which is `-1` when none came. -/
def addConnection (p : WorkerProcess) (mem : NwcConnection) (fd : Int) : WorkerProcess :=
  { p with
    ctx :=
      { p.ctx with
        nwcHdr := p.ctx.nwcHdr
          ++ [{ allocNwcConn mem fd with events := { read := true, write := false } }] } }

/-- `notify_fd[1]` is readable. -/
def notified (p : WorkerProcess) (mem : NwcConnection) (msg : WorkerMsg) : Option WorkerProcess :=
  (p.receiveFd msg.fd).map fun p =>
    if msg.cmd = CMD_FD then (p.addConnection mem (msg.fd.getD (-1))).top
    else if msg.cmd = CMD_EXIT then p.leave
    else p.top

/-- A descriptor that `accept` returned is sent to a worker and closed. -/
def dispatch (p : WorkerProcess) (fd : Int) : Option WorkerProcess :=
  (p.files.opened fd ()).map fun files =>
    let r := { p with files := files }.getWorker
    let p := { r.2 with dispatched := p.dispatched ++ [r.1] }.sendCmd
    { p with files := p.files.closed fd }.top

/-- `listen_fd` seems to be readable. -/
def acceptable (p : WorkerProcess) (accept : Except Int Int) : Option WorkerProcess :=
  -- what is not open is not accepted on
  match if (p.files.file p.ctx.listenFd).isSome then accept else .error EBADF with
  | .error errno => some (if errno ≠ EINTR then p.leave else p.top)
  | .ok fd => p.dispatch fd

/-- To the first connection of the loop, or back to the top when there is none. -/
def serve (p : WorkerProcess) (readfds writefds : List Int) : WorkerProcess :=
  if p.ctx.nwcHdr = [] then p.top else { p with phase := .serving 0 readfds writefds }

/-- The return of `select`, and of the call that it leads to. -/
inductive SelectAnswer where
  | failed (errno : Int)
  /-- `stray` is what `FD_ISSET` makes of `-1`. -/
  | ready (readable writable : List Int) (stray : Bool) (msg : WorkerMsg) (mem : NwcConnection)
      (accept : Except Int Int)

/-- `FD_ISSET(ctx->listen_fd, &readfds)`, which is not asked whether `listen_fd` is `-1`. -/
def listenIsset (p : WorkerProcess) (readfds : List Int) (stray : Bool) : Bool :=
  if p.ctx.listenFd = -1 then stray else p.ctx.listenFd ∈ readfds

/-- Behind the test of `notify_fd[1]`. -/
def notNotified (p : WorkerProcess) (readfds writefds : List Int) (stray : Bool)
    (accept : Except Int Int) : Option WorkerProcess :=
  if p.listenIsset readfds stray then (p.use [p.ctx.listenFd]).acceptable accept
  else some ((p.use [p.ctx.listenFd]).serve readfds writefds)

/-- What follows the return of `select`. -/
def selected (p : WorkerProcess) (readfds writefds : List Int) :
    SelectAnswer → Option WorkerProcess
  | .failed errno => some (if errno = EINTR then p.top else p.leave)
  | .ready readable writable stray msg mem accept =>
    let readfds := readfds.filter (· ∈ readable)
    let tested := p.use ([p.ctx.notifyFd.2].filter (· ≠ -1))
    if p.ctx.notifyFd.2 ≠ -1 ∧ p.ctx.notifyFd.2 ∈ readfds then tested.notified mem msg
    else tested.notNotified readfds (writefds.filter (· ∈ writable)) stray accept

/-- The calls of `FD_ISSET` for a connection. The second is for one that waits to be written. -/
def visitTests (readable : Bool) (c : NwcConnection) (a : ServeAnswers) : List Int :=
  c.fd :: if c.events.write && !(readable && recvCloses a.recv) then [c.fd] else []

/-- Connection `i` of the loop has been passed, and `v` is what happened. -/
def store (p : WorkerProcess) (i : Nat) (c : NwcConnection) (v : Visit) : WorkerProcess :=
  { p with
    files := if v.left then p.files.closed c.fd else p.files
    ctx := { p.ctx with nwcHdr := p.ctx.nwcHdr.set i v.nwc } }

/-- Connection `i` of the loop, which is `c`. -/
def visited (p : WorkerProcess) (i : Nat) (readfds writefds : List Int) (c : NwcConnection)
    (a : ServeAnswers) : WorkerProcess :=
  let readable := decide (c.fd ∈ readfds)
  let v := serveVisit true true readable (c.fd ∈ writefds) c a
  let p := (p.use (visitTests readable c a)).store i c v
  if v.left ∨ i + 1 = p.ctx.nwcHdr.length then p.top
  else { p with phase := .serving (i + 1) readfds writefds }

/-! ## The machine -/

inductive Event where
  | select (answer : SelectAnswer)
  | visit (answers : ServeAnswers)
  /-- `exit_handler`, which only the master has installed. -/
  | signal

def step (p : WorkerProcess) : Event → Option WorkerProcess
  | .select answer =>
    match p.phase with
    | .waiting readfds writefds => p.selected readfds writefds answer
    | _ => none
  | .visit a =>
    match p.phase with
    | .serving i readfds writefds =>
      (p.ctx.nwcHdr[i]?).map fun c => p.visited i readfds writefds c a
    | _ => none
  | .signal => if p.ctx.listenFd ≠ -1 ∧ p.phase ≠ .left then some p.sendCmd else none

/-! ## Start -/

/-- A process as it enters `worker` and comes to its first `select`. -/
def enter (files : Table Unit) (notifyFd : Int × Int) (listenFd : Int) : WorkerProcess :=
  top
    { files := files
      ctx := { notifyFd := notifyFd, listenFd := listenFd, nwcHdr := [] }
      currentWorkerIndex := 0
      phase := .left
      uses := []
      dispatched := [] }

/-- The `socketpair` of `worker_context_init`. -/
def openPair (files : Table Unit) (pair : Int × Int) : Option (Table Unit) :=
  match files.opened pair.1 () with
  | some files => files.opened pair.2 ()
  | none => none

/--
The loop of `nwc_server_process` that forks: the workers, and what is open in the master
afterwards. The worker closes its `notify_fd[0]`, the master its `notify_fd[1]`.
-/
def forkWorkers (files : Table Unit) : List (Int × Int) → Option (List WorkerProcess × Table Unit)
  | [] => some ([], files)
  | pair :: pairs =>
    match openPair files pair with
    | none => none
    | some files =>
      match forkWorkers (files.closed pair.2) pairs with
      | none => none
      | some (workers, files') =>
        some (enter (files.closed pair.1) (-1, pair.2) (-1) :: workers, files')

/-- The processes that `nwc_server_process` starts on the listening socket `sockFd`. -/
inductive Starts (files : Table Unit) (sockFd : Int) : WorkerProcess → Prop where
  /-- The first workers; `worker_context_init` may fail for the next one. -/
  | worker (files₁ files₂ : Table Unit) (pairs : List (Int × Int)) (workers : List WorkerProcess)
      (hsock : files.opened sockFd () = some files₁) (hpairs : pairs.length ≤ 4)
      (hfork : forkWorkers files₁ pairs = some (workers, files₂)) (p : WorkerProcess)
      (hp : p ∈ workers) : Starts files sockFd p
  | master (files₁ files₂ files₃ : Table Unit) (pairs : List (Int × Int))
      (workers : List WorkerProcess) (pair : Int × Int)
      (hsock : files.opened sockFd () = some files₁) (hpairs : pairs.length = 4)
      (hfork : forkWorkers files₁ pairs = some (workers, files₂))
      (hpair : openPair files₂ pair = some files₃) : Starts files sockFd (enter files₃ pair sockFd)

/-! ## What the calls leave alone -/

section
variable (p : WorkerProcess)

@[simp] theorem use_dispatched (fds : List Int) : (p.use fds).dispatched = p.dispatched := rfl

@[simp] theorem use_index (fds : List Int) :
    (p.use fds).currentWorkerIndex = p.currentWorkerIndex := rfl

@[simp] theorem use_ctx (fds : List Int) : (p.use fds).ctx = p.ctx := rfl

@[simp] theorem use_files (fds : List Int) : (p.use fds).files = p.files := rfl

@[simp] theorem top_dispatched : p.top.dispatched = p.dispatched := rfl

@[simp] theorem top_index : p.top.currentWorkerIndex = p.currentWorkerIndex := rfl

@[simp] theorem leave_dispatched : p.leave.dispatched = p.dispatched := rfl

@[simp] theorem leave_index : p.leave.currentWorkerIndex = p.currentWorkerIndex := rfl

@[simp] theorem serve_dispatched (readfds writefds : List Int) :
    (p.serve readfds writefds).dispatched = p.dispatched := by
  unfold serve
  split <;> rfl

@[simp] theorem serve_index (readfds writefds : List Int) :
    (p.serve readfds writefds).currentWorkerIndex = p.currentWorkerIndex := by
  unfold serve
  split <;> rfl

end

/-! ## Which worker gets a descriptor -/

variable {p q : WorkerProcess}

/-- Nothing is dispatched, and the cursor stays. -/
def SameDispatch (p q : WorkerProcess) : Prop :=
  q.dispatched = p.dispatched ∧ q.currentWorkerIndex = p.currentWorkerIndex

/-- A descriptor goes to the worker at the cursor, which moves on by two. -/
def Dispatches (p q : WorkerProcess) : Prop :=
  q.dispatched = p.dispatched ++ [p.currentWorkerIndex % 4] ∧
    q.currentWorkerIndex = (p.currentWorkerIndex % 4 + 1) % 4 + 1

theorem receiveFd_same {fd : Option Int} (h : p.receiveFd fd = some q) :
    q.ctx = p.ctx ∧ q.uses = p.uses ∧ SameDispatch p q := by
  cases fd with
  | none =>
    cases h
    exact ⟨rfl, rfl, rfl, rfl⟩
  | some fd =>
    obtain ⟨files, -, rfl⟩ := Option.map_eq_some_iff.mp h
    exact ⟨rfl, rfl, rfl, rfl⟩

theorem notified_same {mem : NwcConnection} {msg : WorkerMsg} (h : p.notified mem msg = some q) :
    SameDispatch p q := by
  obtain ⟨r, hr, rfl⟩ := Option.map_eq_some_iff.mp h
  obtain ⟨-, -, hd, hi⟩ := receiveFd_same hr
  split
  · exact ⟨hd, hi⟩
  · split
    · exact ⟨hd, hi⟩
    · exact ⟨hd, hi⟩

theorem acceptable_dispatch {accept : Except Int Int} (h : p.acceptable accept = some q) :
    SameDispatch p q ∨ Dispatches p q := by
  unfold acceptable at h
  split at h
  · cases h
    split
    · exact Or.inl ⟨rfl, rfl⟩
    · exact Or.inl ⟨rfl, rfl⟩
  · obtain ⟨files, -, rfl⟩ := Option.map_eq_some_iff.mp h
    exact Or.inr ⟨rfl, rfl⟩

theorem notNotified_dispatch {readfds writefds : List Int} {stray : Bool}
    {accept : Except Int Int} (h : p.notNotified readfds writefds stray accept = some q) :
    SameDispatch p q ∨ Dispatches p q := by
  unfold notNotified at h
  split at h
  · exact acceptable_dispatch (p := p.use _) h
  · cases h
    exact Or.inl ⟨serve_dispatched _ _ _, serve_index _ _ _⟩

/-- What an event other than a signal dispatches. -/
theorem step_dispatch {e : Event} (he : e ≠ .signal) (h : p.step e = some q) :
    SameDispatch p q ∨ Dispatches p q := by
  cases e with
  | select answer =>
    simp only [step] at h
    split at h
    · cases answer with
      | failed errno =>
        cases h
        split
        · exact Or.inl ⟨rfl, rfl⟩
        · exact Or.inl ⟨rfl, rfl⟩
      | ready readable writable stray msg mem accept =>
        simp only [selected] at h
        split at h
        · exact Or.inl (notified_same (p := p.use _) h)
        · exact notNotified_dispatch (p := p.use _) h
    · cases h
  | visit a =>
    simp only [step] at h
    split at h
    · obtain ⟨c, -, rfl⟩ := Option.map_eq_some_iff.mp h
      left
      unfold visited
      dsimp only
      split
      · exact ⟨rfl, rfl⟩
      · exact ⟨rfl, rfl⟩
    · cases h
  | signal => exact absurd rfl he

/-- The number of descriptors that two workers got differs by at most one. -/
def Fair (p : WorkerProcess) : Prop :=
  ∀ i < 4, ∀ j < 4, p.dispatched.count i ≤ p.dispatched.count j + 1

instance (p : WorkerProcess) : Decidable p.Fair :=
  inferInstanceAs (Decidable (∀ i < 4, ∀ j < 4, _))

/-- Descriptor `k` has gone to worker `2 * k % 4`, and the cursor is where the next one goes to. -/
def EveryOther (p : WorkerProcess) : Prop :=
  p.dispatched = (List.range p.dispatched.length).map (fun k => 2 * k % 4) ∧
    p.currentWorkerIndex % 4 = 2 * p.dispatched.length % 4

theorem EveryOther.step (hp : p.EveryOther) {e : Event} (he : e ≠ .signal)
    (h : p.step e = some q) : q.EveryOther := by
  obtain ⟨hlist, hcursor⟩ := hp
  rcases step_dispatch he h with ⟨hd, hi⟩ | ⟨hd, hi⟩
  · rw [EveryOther, hd, hi]
    exact ⟨hlist, hcursor⟩
  · have hlen : q.dispatched.length = p.dispatched.length + 1 := by
      rw [hd, List.length_append, List.length_singleton]
    refine ⟨?_, ?_⟩
    · rw [hlen, List.range_succ, List.map_append, ← hlist, hd, hcursor]
      rfl
    · rw [hlen, hi]
      omega

/-- Only the workers 0 and 2 get descriptors. -/
theorem EveryOther.count_one (hp : p.EveryOther) : p.dispatched.count 1 = 0 := by
  rw [hp.1, List.count_eq_zero]
  intro h
  obtain ⟨k, -, hk⟩ := List.mem_map.mp h
  omega

/-- The first three descriptors leave worker 0 with two. -/
theorem EveryOther.count_zero (hp : p.EveryOther) (hlen : 3 ≤ p.dispatched.length) :
    2 ≤ p.dispatched.count 0 := by
  have hsub : List.Sublist [0, 0] p.dispatched := by
    rw [hp.1]
    have hrange : List.Sublist [0, 2] (List.range p.dispatched.length) :=
      (show List.Sublist [0, 2] (List.range 3) by decide).trans (List.range_sublist.mpr hlen)
    exact hrange.map (fun k => 2 * k % 4)
  exact hsub.count_le 0

theorem EveryOther.fair_iff (hp : p.EveryOther) : p.Fair ↔ p.dispatched.length ≤ 2 := by
  constructor
  · intro hfair
    by_contra hlen
    have hzero := hp.count_zero (by omega)
    have hone := hp.count_one
    have := hfair 0 (by decide) 1 (by decide)
    omega
  · intro hlen i _ j _
    -- up to two descriptors go to different workers
    have hnodup : p.dispatched.Nodup := by
      rw [hp.1]
      refine List.Nodup.map_on ?_ List.nodup_range
      intro k hk l hl heq
      rw [List.mem_range] at hk hl
      omega
    have := List.nodup_iff_count_le_one.mp hnodup i
    omega

/--
**The dispatch is fair for two descriptors and no more.**

In a run of the master in which no exit command is sent, the numbers of descriptors that any two of
the four workers were sent differ by at most one exactly while no more than two connections have
been accepted.
-/
theorem dispatch_fair_iff (files : Table Unit) (notifyFd : Int × Int) (sockFd : Int)
    (events : List Event) (p : WorkerProcess) (hnosignal : Event.signal ∉ events)
    (hrun : replay step (enter files notifyFd sockFd) events = some p) :
    p.Fair ↔ p.dispatched.length ≤ 2 := by
  have hp : p.EveryOther :=
    replay_invariant (I := fun e => e ≠ .signal) (fun _ _ _ he hp hstep => hp.step he hstep)
      (fun e he heq => hnosignal (by rw [← heq]; exact he)) ⟨rfl, rfl⟩ hrun
  exact hp.fair_iff

/-- A master that listens on 3, with the pair 4 and 5. -/
def sampleMaster : WorkerProcess :=
  enter
    { file := fun fd => if fd ∈ [3, 4, 5] then some () else none
      nonneg := by
        intro fd h
        rw [ne_eq, ite_eq_right_iff, not_forall] at h
        obtain ⟨hfd, -⟩ := h
        simp only [List.mem_cons, List.not_mem_nil, or_false] at hfd
        omega } (4, 5) 3

/-- A connection is accepted, as descriptor 6. -/
def connects : Event := .select (.ready [3] [] false { cmd := 0, fd := none } .blank (.ok 6))

theorem twoConnections_fair : ∃ p, replay step sampleMaster [connects, connects] = some p ∧
    p.Fair := by
  obtain ⟨p, hp, htwo⟩ : ∃ p ∈ replay step sampleMaster [connects, connects],
      p.dispatched.length = 2 := by
    decide +kernel
  have hiff := dispatch_fair_iff _ _ _ _ p (by simp [connects]) hp
  exact ⟨p, hp, hiff.mpr htwo.le⟩

/-- The third connection goes to the worker that has the first one. -/
theorem threeConnections_unfair : ∃ p,
    replay step sampleMaster [connects, connects, connects] = some p ∧ ¬p.Fair := by
  show ∃ p ∈ replay step sampleMaster [connects, connects, connects], ¬p.Fair
  decide +kernel

end WorkerProcess

end Nwchecker.UnixIo
