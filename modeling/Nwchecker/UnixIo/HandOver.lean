import Nwchecker.Lib.Custody
import Nwchecker.UnixIo.FdSets

/-!
# Master and workers together

`nwc_server_process` forks four workers and runs `worker` itself. The master passes the descriptor
of a connection on in a datagram on the pair of a worker, which gets a descriptor of its own for it.
Here the five processes run side by side, with the datagrams that are on the way.

The connections are numbered as they are accepted. `handOver_exact` says where they are: each is on
the way to one worker, or in the ring of one worker and behind one descriptor of it, or closed.
-/

namespace Nwchecker.UnixIo

open Descriptors Machine

/-! ## The server -/

/-- A datagram on a pair: `cmd`, and the connection that travels with it. -/
structure Datagram where
  cmd : Int
  conn : Option Nat
  deriving DecidableEq, Repr

/-- `notify_exit` -/
def Datagram.exit : Datagram where
  cmd := CMD_EXIT
  conn := none

/--
The processes of the server. `pipe` holds what the master has sent to a worker, and `own` what it
has sent to itself. `behind` are the connections behind the descriptors that a worker got.
-/
structure MultiServer where
  master : WorkerProcess
  worker : Fin 4 → WorkerProcess
  pipe : Fin 4 → List Datagram
  own : List Datagram
  behind : Fin 4 → Int → Option Nat
  accepted : Nat
  closed : List Nat
  /-- The workers that the loop behind `exit:` has been through. -/
  exits : Nat

inductive MultiEvent where
  /-- An event of the master. `sent`: `sendmsg` takes the datagram, if one is sent. -/
  | master (e : WorkerProcess.Event) (sent : Bool)
  | worker (i : Fin 4) (e : WorkerProcess.Event)
  /-- A worker ends by a signal. -/
  | killed (i : Fin 4)
  /-- `notify_exit` for the next worker, after `waitpid` for those before. -/
  | notifyExit (sent : Bool)

/-- What the process reads from its pair in this event, if it reads. -/
def WorkerProcess.reads (p : WorkerProcess) : WorkerProcess.Event → Option WorkerProcess.WorkerMsg
  | .select (.ready readable _ _ msg _ _) =>
    match p.phase with
    | .waiting readfds _ =>
      if p.ctx.notifyFd.2 ≠ -1 ∧ p.ctx.notifyFd.2 ∈ readfds.filter (· ∈ readable) then some msg
      else none
    | _ => none
  | _ => none

/--
`worker_recv_msg`: the datagram that was taken and the others. When it fails, `cmd` stays `-1`. The
descriptor is dropped when the process can have no more.
-/
def recvDatagram (queue : List Datagram) :
    Option WorkerProcess.WorkerMsg → Option (Option Datagram × List Datagram)
  | none => some (none, queue)
  | some msg =>
    if msg.cmd = -1 ∧ msg.fd = none then some (none, queue)
    else
      match queue with
      | d :: rest =>
        if msg.cmd = d.cmd ∧ (msg.fd.isSome → d.conn.isSome) then some (some d, rest) else none
      | [] => none

namespace MultiServer

/-- The connections in the ring of a worker. -/
def served (s : MultiServer) (i : Fin 4) : List Nat :=
  (liveFds (s.worker i).ctx.nwcHdr).filterMap (s.behind i)

/-- The connections on the way to a worker. -/
def onTheWay (s : MultiServer) (i : Fin 4) : List Nat := (s.pipe i).filterMap Datagram.conn

/--
Worker `i` becomes `q`. It has taken the datagram `d`, got `fd` for what came with it, and closed
the connections whose descriptors are not open any more.
-/
def stepWorker (s : MultiServer) (i : Fin 4) (q : WorkerProcess) (d : Option Datagram)
    (rest : List Datagram) (fd : Option Int) : MultiServer :=
  let conn := d.bind Datagram.conn
  let gone := (liveFds (s.worker i).ctx.nwcHdr).filter fun x => (q.files.file x).isNone
  { s with
    worker := Function.update s.worker i q
    pipe := Function.update s.pipe i rest
    behind :=
      match fd with
      | some fd => Function.update s.behind i (Function.update (s.behind i) fd conn)
      | none => s.behind
    closed :=
      s.closed ++ (if fd.isNone then conn.toList else []) ++ gone.filterMap (s.behind i) }

/-- With a worker that has ended nobody has its end of the pair, and what is on the way is lost. -/
def reap (s : MultiServer) (i : Fin 4) : MultiServer :=
  if (s.worker i).phase = .left then
    { s with
      pipe := Function.update s.pipe i []
      closed := s.closed ++ s.onTheWay i }
  else s

/-- A datagram for worker `i`. -/
def push (s : MultiServer) (i : Fin 4) (d : Datagram) : MultiServer :=
  { s with pipe := Function.update s.pipe i (s.pipe i ++ [d]) }

/-- The connection that was accepted last goes to worker `i`, or is closed. -/
def handOver (s : MultiServer) (i : Fin 4) (sent : Bool) : MultiServer :=
  if sent ∧ (s.worker i).phase ≠ .left then
    { s.push i { cmd := CMD_FD, conn := some s.accepted } with accepted := s.accepted + 1 }
  else { s with accepted := s.accepted + 1, closed := s.closed ++ [s.accepted] }

def step (s : MultiServer) : MultiEvent → Option MultiServer
  | .worker i e =>
    match (s.worker i).step e, recvDatagram (s.pipe i) ((s.worker i).reads e) with
    | some q, some (d, rest) =>
      some ((s.stepWorker i q d rest (((s.worker i).reads e).bind fun msg => msg.fd)).reap i)
    | _, _ => none
  | .killed i =>
    if (s.worker i).phase ≠ .left then
      some ((s.stepWorker i (s.worker i).leave none (s.pipe i) none).reap i)
    else none
  | .master e sent =>
    match s.master.step e, recvDatagram s.own (s.master.reads e) with
    | some q, some (_, rest) =>
      let s' :=
        { s with
          master := q
          own :=
            match e with
            | .signal => if sent then rest ++ [.exit] else rest
            | _ => rest }
      match q.dispatched.drop s.master.dispatched.length with
      | [] => some s'
      | j :: _ => some (s'.handOver ⟨j % 4, Nat.mod_lt j (Nat.succ_pos 3)⟩ sent)
    | _, _ => none
  | .notifyExit sent =>
    if h : s.exits < 4 then
      if s.master.phase = .left ∧ ∀ i : Fin 4, i < s.exits → (s.worker i).phase = .left then
        let s' := { s with exits := s.exits + 1 }
        if sent ∧ (s.worker ⟨s.exits, h⟩).phase ≠ .left then some (s'.push ⟨s.exits, h⟩ .exit)
        else some s'
      else none
    else none

/-- `nwc_server_process` up to the call of `worker` in the master. -/
def boot (files : Table Unit) (sockFd : Int) (pairs : List (Int × Int)) (pair : Int × Int) :
    Option MultiServer :=
  match files.opened sockFd () with
  | none => none
  | some files =>
    match WorkerProcess.forkWorkers files pairs with
    | some ([a, b, c, d], files) =>
      match WorkerProcess.openPair files pair with
      | some files =>
        some
          { master := WorkerProcess.enter files pair sockFd
            worker := [a, b, c, d].get
            pipe := fun _ => []
            own := []
            behind := fun _ _ => none
            accepted := 0
            closed := []
            exits := 0 }
      | none => none
    | _ => none

end MultiServer

/-! ## What a step does to the connections of a process -/

namespace WorkerProcess

variable {p q : WorkerProcess}

/--
What becomes of the connections of the ring `hdr` in a step to `q` that reads `msg`. Those that are
not mentioned stay open.
-/
inductive Change (hdr : List NwcConnection) (q : WorkerProcess) (msg : Option WorkerMsg) :
    Prop where
  | same (hphase : q.phase ≠ .left) (hmsg : ∀ m ∈ msg, m.cmd ≠ CMD_FD)
      (hlive : liveFds q.ctx.nwcHdr = liveFds hdr)
      (hopen : ∀ fd ∈ liveFds hdr, q.files.file fd ≠ none)
  | added (hphase : q.phase ≠ .left) (m : WorkerMsg) (hmsg : msg = some m) (hcmd : m.cmd = CMD_FD)
      (hlive : liveFds q.ctx.nwcHdr = liveFds hdr ++ m.fd.toList)
      (hnew : ∀ fd ∈ m.fd, fd ∉ liveFds hdr)
      (hopen : ∀ fd ∈ liveFds hdr, q.files.file fd ≠ none)
  | closed (hphase : q.phase ≠ .left) (hmsg : msg = none) (pre post : List Int) (fd : Int)
      (hold : liveFds hdr = pre ++ fd :: post)
      (hlive : liveFds q.ctx.nwcHdr = pre ++ post) (hclosed : q.files.file fd = none)
      (hopen : ∀ x ∈ pre ++ post, q.files.file x ≠ none)
  | left (hphase : q.phase = .left) (hmsg : ∀ m ∈ msg, m.cmd ≠ CMD_FD) (hhdr : q.ctx.nwcHdr = [])
      (hclosed : ∀ fd ∈ liveFds hdr, q.files.file fd = none)

@[simp] theorem liveFds_top : liveFds p.top.ctx.nwcHdr = liveFds p.ctx.nwcHdr :=
  liveFds_sweep _

theorem liveFds_subset {fd : Int} (h : fd ∈ liveFds p.ctx.nwcHdr) : fd ∈ held p.ctx := by
  obtain ⟨hfd, hne⟩ := List.mem_filter.mp h
  obtain ⟨c, hc, rfl⟩ := List.mem_map.mp hfd
  exact mem_held.mpr ⟨by simpa using hne, Or.inr (Or.inr ⟨c, hc, rfl⟩)⟩

theorem leave_closed {fd : Int} (h : fd ∈ liveFds p.ctx.nwcHdr) : p.leave.files.file fd = none := by
  show ((destroyAllNwc p.files p.ctx.nwcHdr).closed p.ctx.notifyFd.2).file fd = none
  by_cases hfd : fd = p.ctx.notifyFd.2
  · rw [hfd, Table.closed_file]
  · rw [Table.closed_other _ hfd]
    exact destroyAllNwc_closed (Or.inr h)

theorem Change.leave (p : WorkerProcess) (msg : Option WorkerMsg)
    (hmsg : ∀ m ∈ msg, m.cmd ≠ CMD_FD) : Change p.ctx.nwcHdr p.leave msg :=
  .left rfl hmsg rfl fun _ hfd => leave_closed hfd

/-- Back to `select` with the same connections. -/
theorem Change.top {r : WorkerProcess} {msg : Option WorkerMsg}
    (hmsg : ∀ m ∈ msg, m.cmd ≠ CMD_FD) (hctx : r.ctx = p.ctx)
    (hopen : ∀ fd ∈ liveFds p.ctx.nwcHdr, r.files.file fd ≠ none) :
    Change p.ctx.nwcHdr r.top msg :=
  .same (by simp [WorkerProcess.top]) hmsg (by rw [liveFds_top, hctx]) hopen

variable {B : Int → Prop} {Q : FdUse → Prop}

theorem Sound.live_open (hs : Sound B p) : ∀ fd ∈ liveFds p.ctx.nwcHdr, p.files.file fd ≠ none :=
  fun fd hfd => hs.opened fd (liveFds_subset hfd)

theorem Sound.change_notified (hs : Sound B p) {mem : NwcConnection} {msg : WorkerMsg}
    (h : p.notified mem msg = some q) : Change p.ctx.nwcHdr q (some msg) := by
  obtain ⟨r, hr, rfl⟩ := Option.map_eq_some_iff.mp h
  obtain ⟨hctx, -, -⟩ := receiveFd_same hr
  have hopened : (∀ fd ∈ liveFds p.ctx.nwcHdr, r.files.file fd ≠ none) ∧
      ∀ fd ∈ msg.fd, fd ≠ -1 ∧ fd ∉ liveFds p.ctx.nwcHdr := by
    cases hfd : msg.fd with
    | none =>
      rw [hfd] at hr
      cases hr
      exact ⟨hs.live_open, by simp⟩
    | some fd =>
      rw [hfd] at hr
      obtain ⟨files, hfiles, rfl⟩ := Option.map_eq_some_iff.mp hr
      obtain ⟨hpos, -, -, hother⟩ := Table.opened_cases hfiles
      have hnew := hs.fresh hfiles
      refine ⟨fun x hx => ?_, fun x hx => ?_⟩
      · rw [Table.opened_other hfiles (hs.live_open x hx)]
        exact hs.live_open x hx
      · cases hx
        exact ⟨by omega, fun hin => hnew (liveFds_subset hin)⟩
  split
  · next hcmd =>
    refine .added (by simp [WorkerProcess.top]) msg rfl hcmd ?_ (fun fd hfd => (hopened.2 fd hfd).2)
      hopened.1
    rw [liveFds_top]
    show liveFds (r.ctx.nwcHdr ++ [_]) = _
    rw [hctx, liveFds, List.map_append, List.filter_append]
    refine congrArg (liveFds p.ctx.nwcHdr ++ ·) ?_
    cases hfd : msg.fd with
    | none => rfl
    | some fd => simp [allocNwcConn, (hopened.2 fd (by rw [hfd]; rfl)).1]
  · next hcmd =>
    have hmsg : ∀ m ∈ some msg, m.cmd ≠ CMD_FD := by simpa using hcmd
    split
    · refine .left rfl hmsg rfl fun fd hfd => leave_closed ?_
      rwa [hctx]
    · exact .top hmsg hctx hopened.1

theorem Sound.change_acceptable (hs : Sound B p) {accept : Except Int Int}
    (h : p.acceptable accept = some q) : Change p.ctx.nwcHdr q none := by
  unfold WorkerProcess.acceptable at h
  split at h
  · cases h
    split
    · exact .leave p none (by simp)
    · exact .top (by simp) rfl hs.live_open
  · obtain ⟨files, hfiles, rfl⟩ := Option.map_eq_some_iff.mp h
    refine .top (by simp) rfl fun fd hfd => ?_
    show (files.closed _).file fd ≠ none
    rw [Table.closed_opened hfiles]
    exact hs.live_open fd hfd

theorem Serving.change_notNotified (hs : Serving B p) {readfds writefds : List Int} {stray : Bool}
    {accept : Except Int Int} (h : p.notNotified readfds writefds stray accept = some q) :
    Change p.ctx.nwcHdr q none := by
  have hs' : Sound B (p.use [p.ctx.listenFd]) := hs.toSound.of_same rfl rfl
  unfold WorkerProcess.notNotified at h
  split at h
  · exact hs'.change_acceptable h
  · cases h
    unfold serve
    split
    · exact .top (by simp) rfl hs.live_open
    · exact .same (by simp) (by simp) rfl hs.live_open

/-- A connection of the loop stays as it is, or is closed. -/
theorem Serving.change_visited (hs : Serving B p) {i : Nat} {readfds writefds : List Int}
    {c : NwcConnection} (hc : p.ctx.nwcHdr[i]? = some c) (a : ServeAnswers) :
    Change p.ctx.nwcHdr (p.visited i readfds writefds c a) none := by
  have hfd := @serveVisit_fd true true (decide (c.fd ∈ readfds)) (decide (c.fd ∈ writefds)) c a
  unfold WorkerProcess.visited
  dsimp only
  generalize hv : serveVisit true true (decide (c.fd ∈ readfds)) (decide (c.fd ∈ writefds)) c a
    = v at hfd ⊢
  have hcfd : c.fd ≠ -1 := hs.live c (List.mem_of_getElem? hc)
  obtain ⟨pre, post, hold, hset⟩ := liveFds_set hc hcfd
  have hnew := hset v.nwc
  have hnodup : (liveFds p.ctx.nwcHdr).Nodup :=
    List.Nodup.sublist (List.Sublist.filter _ ((List.sublist_cons_self _ _).trans
      (List.sublist_cons_self _ _))) hs.nodup
  cases hleft : v.left with
  | false =>
    rw [hleft] at hfd
    have hsame : liveFds (p.ctx.nwcHdr.set i v.nwc) = liveFds p.ctx.nwcHdr := by
      have hvfd : v.nwc.fd = c.fd := hfd
      rw [hnew, hold, liveFds_cons (by rw [hvfd]; exact hcfd), hvfd]
      rfl
    have hfiles : (if v.left then p.files.closed c.fd else p.files) = p.files := by
      rw [hleft]
      rfl
    split
    · refine .same (by simp [WorkerProcess.top]) (by simp) ?_ fun fd hfd => ?_
      · rw [liveFds_top]
        exact hsame
      · show (if v.left then p.files.closed c.fd else p.files).file fd ≠ none
        rw [hfiles]
        exact hs.live_open fd hfd
    · refine .same (by simp) (by simp) hsame fun fd hfd => ?_
      show (if v.left then p.files.closed c.fd else p.files).file fd ≠ none
      rw [hfiles]
      exact hs.live_open fd hfd
  | true =>
    rw [hleft] at hfd
    rw [if_pos (Or.inl rfl)]
    refine .closed (by simp [WorkerProcess.top]) rfl pre post c.fd hold ?_ ?_
      fun x hx => ?_
    · rw [liveFds_top]
      show liveFds (p.ctx.nwcHdr.set i v.nwc) = _
      rw [hnew, liveFds_cons_dead hfd]
      rfl
    · show (if v.left then p.files.closed c.fd else p.files).file c.fd = none
      rw [if_pos hleft, Table.closed_file]
    · show (if v.left then p.files.closed c.fd else p.files).file x ≠ none
      have hxc : x ≠ c.fd := by
        rintro rfl
        rw [hold] at hnodup
        exact (List.nodup_middle.mp hnodup).notMem hx
      rw [if_pos hleft, Table.closed_other _ hxc]
      refine hs.live_open x ?_
      rw [hold]
      exact (List.sublist_cons_self _ _ |>.append_left _).subset hx

/-- One step of a process. -/
theorem Inv.change (hp : Inv B Q p) {e : Event} (h : p.step e = some q) :
    Change p.ctx.nwcHdr q (p.reads e) := by
  cases e with
  | select answer =>
    simp only [WorkerProcess.step] at h
    split at h
    · next readfds writefds hphase =>
      have hserving := hp.serving (by simp [hphase])
      cases answer with
      | failed errno =>
        cases h
        split
        · exact .top (by simp [WorkerProcess.reads]) rfl hserving.live_open
        · exact .leave p _ (by simp [WorkerProcess.reads])
      | ready readable writable stray msg mem accept =>
        rw [hp.selected_ready hphase] at h
        have hs : Serving B (p.use [p.ctx.notifyFd.2]) := hserving.of_same rfl rfl
        have hwatched := hp.watched readfds writefds hphase
        have hreads : p.reads (.select (.ready readable writable stray msg mem accept))
            = if p.ctx.notifyFd.2 ∈ readable then some msg else none := by
          simp only [WorkerProcess.reads, hphase, List.mem_filter, hwatched, true_and,
            decide_eq_true_eq, ne_eq, hserving.notify, not_false_eq_true]
        rw [hreads]
        split at h
        · next hnotified =>
          rw [if_pos hnotified]
          exact hs.change_notified h
        · next hnotified =>
          rw [if_neg hnotified]
          exact hs.change_notNotified h
    · cases h
  | visit a =>
    simp only [WorkerProcess.step] at h
    split at h
    · next hphase =>
      obtain ⟨c, hc, rfl⟩ := Option.map_eq_some_iff.mp h
      exact (hp.serving (by simp [hphase])).change_visited hc a
    · cases h
  | signal =>
    simp only [WorkerProcess.step] at h
    split at h
    · next hsignal =>
      cases h
      exact .same hsignal.2 (by simp [WorkerProcess.reads]) rfl (hp.serving hsignal.2).live_open
    · cases h

end WorkerProcess

/-! ## Where the connections are -/

namespace MultiServer

open WorkerProcess

/-- Where a connection that was accepted can be. -/
inductive Place where
  | pipe (i : Fin 4)
  | worker (i : Fin 4)
  | closed
  deriving DecidableEq

def place (s : MultiServer) : Place → List Nat
  | .pipe i => s.onTheWay i
  | .worker i => s.served i
  | .closed => s.closed

/-- Everything that a process passes to `FD_SET` and `FD_ISSET` is open, or `-1`. -/
def Tidy (p : WorkerProcess) : Prop :=
  WorkerProcess.Inv (fun _ => True) (fun u => u.fd = -1 ∨ u.opened = true) p

/-- The connections are where they should be, and a worker gets them in the order of `accept`. -/
structure Kept (s : MultiServer) : Prop where
  tidy : ∀ i, Tidy (s.worker i)
  left : ∀ i, (s.worker i).phase = .left → (s.worker i).ctx.nwcHdr = []
  cmds : ∀ i, ∀ d ∈ s.pipe i, (d.cmd = CMD_FD ∧ ∃ k, d.conn = some k) ∨ d = .exit
  behind : ∀ i, ∀ fd ∈ liveFds (s.worker i).ctx.nwcHdr, ∃ k, s.behind i fd = some k
  exact : Custody.Exact s.accepted s.place
  order : ∀ i, (s.served i ++ s.onTheWay i).Pairwise (· < ·)

/-- Nothing is on the way to a worker that has left `worker`. -/
def Reaped (s : MultiServer) : Prop := ∀ i, (s.worker i).phase = .left → s.pipe i = []

/-- What a step of worker `i` does to the connections. -/
inductive Moves (s s' : MultiServer) (i : Fin 4) : Prop where
  | none (hserved : s'.served i = s.served i) (hway : s'.onTheWay i = s.onTheWay i)
      (hclosed : s'.closed = s.closed)
  /-- One arrives. -/
  | taken (k : Nat) (hserved : s'.served i = s.served i ++ [k])
      (hway : s.onTheWay i = k :: s'.onTheWay i) (hclosed : s'.closed = s.closed)
  /-- One arrives, and the worker can have no more descriptors. -/
  | dropped (k : Nat) (hserved : s'.served i = s.served i)
      (hway : s.onTheWay i = k :: s'.onTheWay i) (hclosed : s'.closed = s.closed ++ [k])
  /-- Some of those that it serves are closed. -/
  | closed (ks : List Nat) (hserved : (s.served i).Perm (ks ++ s'.served i))
      (hsub : (s'.served i).Sublist (s.served i)) (hway : s'.onTheWay i = s.onTheWay i)
      (hclosed : s'.closed = s.closed ++ ks)
  /-- Those on the way to it are closed. -/
  | reaped (hserved : s'.served i = s.served i) (hway : s'.onTheWay i = [])
      (hclosed : s'.closed = s.closed ++ s.onTheWay i)

variable {s s' : MultiServer} {i : Fin 4}

theorem Moves.exact (h : Moves s s' i) (hs : Custody.Exact s.accepted s.place)
    (hacc : s'.accepted = s.accepted)
    (hothers : ∀ j, j ≠ i → s'.served j = s.served j ∧ s'.onTheWay j = s.onTheWay j) :
    Custody.Exact s'.accepted s'.place := by
  rw [hacc]
  have hrest : ∀ x : Place, x ≠ .pipe i → x ≠ .worker i → x ≠ .closed →
      s'.place x = s.place x := by
    intro x hp hw hc
    cases x with
    | pipe j => exact (hothers j fun hj => hp (hj ▸ rfl)).2
    | worker j => exact (hothers j fun hj => hw (hj ▸ rfl)).1
    | closed => exact absurd rfl hc
  cases h with
  | none hserved hway hclosed =>
    refine hs.of_perm fun x => ?_
    by_cases hp : x = .pipe i
    · exact hp ▸ .of_eq hway
    · by_cases hw : x = .worker i
      · exact hw ▸ .of_eq hserved
      · by_cases hc : x = .closed
        · exact hc ▸ .of_eq hclosed
        · exact .of_eq (hrest x hp hw hc)
  | taken k hserved hway hclosed =>
    refine hs.transfer (.pipe i) (.worker i) [k] (by simp) (.of_eq hway)
      (.of_eq hserved) fun x hp hw => ?_
    by_cases hc : x = .closed
    · exact hc ▸ hclosed
    · exact hrest x hp hw hc
  | dropped k hserved hway hclosed =>
    refine hs.transfer (.pipe i) .closed [k] (by simp) (.of_eq hway)
      (.of_eq hclosed) fun x hp hc => ?_
    by_cases hw : x = .worker i
    · exact hw ▸ hserved
    · exact hrest x hp hw hc
  | closed ks hserved hsub hway hclosed =>
    refine hs.transfer (.worker i) .closed ks (by simp) hserved
      (.of_eq hclosed) fun x hw hc => ?_
    by_cases hp : x = .pipe i
    · exact hp ▸ hway
    · exact hrest x hp hw hc
  | reaped hserved hway hclosed =>
    refine hs.transfer (.pipe i) .closed (s.onTheWay i) (by simp) (.of_eq ?_)
      (.of_eq hclosed) fun x hp hc => ?_
    · show s.onTheWay i = s.onTheWay i ++ s'.onTheWay i
      rw [hway, List.append_nil]
    · by_cases hw : x = .worker i
      · exact hw ▸ hserved
      · exact hrest x hp hw hc

theorem Moves.order (h : Moves s s' i) (hs : (s.served i ++ s.onTheWay i).Pairwise (· < ·)) :
    (s'.served i ++ s'.onTheWay i).Pairwise (· < ·) := by
  cases h with
  | none hserved hway hclosed =>
    rw [hserved, hway]
    exact hs
  | taken k hserved hway hclosed =>
    rw [hway] at hs
    rw [hserved, List.append_assoc]
    exact hs
  | dropped k hserved hway hclosed =>
    rw [hway] at hs
    rw [hserved]
    exact hs.sublist ((List.sublist_cons_self _ _).append_left _)
  | closed ks hserved hsub hway hclosed =>
    rw [hway]
    exact hs.sublist (hsub.append_right _)
  | reaped hserved hway hclosed =>
    rw [hserved, hway, List.append_nil]
    exact hs.sublist (List.sublist_append_left _ _)

/-! ## A step of a worker -/

theorem recvDatagram_cases {queue rest : List Datagram} {msg : Option WorkerMsg}
    {d : Option Datagram} (h : recvDatagram queue msg = some (d, rest)) :
    (d = none ∧ rest = queue ∧ ∀ m ∈ msg, m.cmd = -1 ∧ m.fd = none) ∨
      ∃ m d', msg = some m ∧ d = some d' ∧ queue = d' :: rest ∧ m.cmd = d'.cmd ∧
        (m.fd.isSome → d'.conn.isSome) := by
  cases msg with
  | none =>
    cases h
    exact Or.inl ⟨rfl, rfl, by simp⟩
  | some m =>
    simp only [recvDatagram] at h
    split at h
    · next hfail =>
      cases h
      exact Or.inl ⟨rfl, rfl, by simpa using hfail⟩
    · split at h
      · next d' rest' =>
        split at h
        · next hd =>
          cases h
          exact Or.inr ⟨m, d', rfl, rfl, rfl, hd⟩
        · cases h
      · cases h

theorem stepWorker_worker (q : WorkerProcess) (d : Option Datagram) (rest : List Datagram)
    (fd : Option Int) (j : Fin 4) :
    (s.stepWorker i q d rest fd).worker j = if j = i then q else s.worker j :=
  Function.update_apply ..

theorem stepWorker_pipe (q : WorkerProcess) (d : Option Datagram) (rest : List Datagram)
    (fd : Option Int) (j : Fin 4) :
    (s.stepWorker i q d rest fd).pipe j = if j = i then rest else s.pipe j :=
  Function.update_apply ..

theorem stepWorker_others (q : WorkerProcess) (d : Option Datagram) (rest : List Datagram)
    (fd : Option Int) : ∀ j, j ≠ i → (s.stepWorker i q d rest fd).served j = s.served j ∧
      (s.stepWorker i q d rest fd).onTheWay j = s.onTheWay j := by
  intro j hj
  unfold served onTheWay stepWorker
  dsimp only
  rw [Function.update_of_ne hj, Function.update_of_ne hj]
  cases fd with
  | none => exact ⟨rfl, rfl⟩
  | some fd =>
    dsimp only
    rw [Function.update_of_ne hj]
    exact ⟨rfl, rfl⟩

/-- Without a new descriptor. -/
theorem stepWorker_none (q : WorkerProcess) (d : Option Datagram) (rest : List Datagram) :
    (s.stepWorker i q d rest none).served i = (liveFds q.ctx.nwcHdr).filterMap (s.behind i) ∧
      (s.stepWorker i q d rest none).onTheWay i = rest.filterMap Datagram.conn ∧
      (s.stepWorker i q d rest none).closed
        = s.closed ++ (d.bind Datagram.conn).toList
          ++ ((liveFds (s.worker i).ctx.nwcHdr).filter
            fun x => (q.files.file x).isNone).filterMap (s.behind i) := by
  unfold served onTheWay stepWorker
  dsimp only
  rw [Function.update_self, Function.update_self]
  exact ⟨rfl, rfl, rfl⟩

/-- With a new one. -/
theorem stepWorker_some (q : WorkerProcess) (d : Option Datagram) (rest : List Datagram)
    (fd : Int) :
    (s.stepWorker i q d rest (some fd)).served i
        = (liveFds q.ctx.nwcHdr).filterMap
          (Function.update (s.behind i) fd (d.bind Datagram.conn)) ∧
      (s.stepWorker i q d rest (some fd)).onTheWay i = rest.filterMap Datagram.conn ∧
      (s.stepWorker i q d rest (some fd)).closed
        = s.closed ++ ((liveFds (s.worker i).ctx.nwcHdr).filter
            fun x => (q.files.file x).isNone).filterMap (s.behind i) ∧
      (s.stepWorker i q d rest (some fd)).behind i
        = Function.update (s.behind i) fd (d.bind Datagram.conn) := by
  unfold served onTheWay stepWorker
  dsimp only
  rw [Function.update_self, Function.update_self, Function.update_self]
  exact ⟨rfl, rfl, by simp, rfl⟩

/-- Nothing is closed. -/
theorem gone_nil {fds : List Int} {q : WorkerProcess} (h : ∀ x ∈ fds, q.files.file x ≠ none) :
    fds.filter (fun x => (q.files.file x).isNone) = [] :=
  List.filter_eq_nil_iff.mpr fun x hx => by simpa using h x hx

/-- Without `CMD_FD` no connection arrives. -/
theorem Kept.plain_recv (hs : s.Kept) {msg : Option WorkerMsg} {d : Option Datagram}
    {rest : List Datagram} (hrecv : recvDatagram (s.pipe i) msg = some (d, rest))
    (hmsg : ∀ m ∈ msg, m.cmd ≠ CMD_FD) :
    (msg.bind fun m => m.fd) = none ∧ d.bind Datagram.conn = none ∧
      rest.filterMap Datagram.conn = s.onTheWay i := by
  rcases recvDatagram_cases hrecv with ⟨rfl, rfl, hfail⟩ | ⟨m, d', rfl, rfl, hqueue, hcmd, hfd⟩
  · refine ⟨?_, rfl, rfl⟩
    cases msg with
    | none => rfl
    | some m => exact (hfail m rfl).2
  · rcases hs.cmds i d' (hqueue ▸ List.mem_cons_self) with ⟨hd, -⟩ | rfl
    · exact absurd (hcmd.trans hd) (hmsg m rfl)
    · refine ⟨?_, rfl, ?_⟩
      · cases hm : m.fd with
        | none => exact hm
        | some fd => exact absurd (hfd (by rw [hm]; rfl)) (by simp [Datagram.exit])
      · rw [onTheWay, hqueue]
        rfl

/-- The connections of `i` have moved, and all that it serves as `q` have a number. -/
structure Numbered (s s' : MultiServer) (i : Fin 4) (q : WorkerProcess) : Prop where
  moves : Moves s s' i
  behind : ∀ fd ∈ liveFds q.ctx.nwcHdr, ∃ k, s'.behind i fd = some k

section Cases

variable {q : WorkerProcess} {d : Option Datagram} {d' : Datagram} {rest : List Datagram}
  {k : Nat} {fd : Int}

theorem Kept.numbered_same (hs : s.Kept) (hconn : d.bind Datagram.conn = none)
    (hrest : rest.filterMap Datagram.conn = s.onTheWay i)
    (hlive : liveFds q.ctx.nwcHdr = liveFds (s.worker i).ctx.nwcHdr)
    (hopen : ∀ x ∈ liveFds (s.worker i).ctx.nwcHdr, q.files.file x ≠ none) :
    Numbered s (s.stepWorker i q d rest none) i q := by
  obtain ⟨hserved, hway, hgone⟩ := stepWorker_none (s := s) (i := i) q d rest
  rw [hlive] at hserved
  rw [hconn, gone_nil hopen] at hgone
  refine ⟨.none hserved (hway.trans hrest) (hgone.trans (by simp)), fun x hx => ?_⟩
  exact hs.behind i x (hlive ▸ hx)

/-- A connection arrives, with the descriptor `fd`. -/
theorem Kept.numbered_taken (hs : s.Kept) (hk : d'.conn = some k)
    (hqueue : s.onTheWay i = k :: rest.filterMap Datagram.conn)
    (hfresh : fd ∉ liveFds (s.worker i).ctx.nwcHdr)
    (hlive : liveFds q.ctx.nwcHdr = liveFds (s.worker i).ctx.nwcHdr ++ [fd])
    (hopen : ∀ x ∈ liveFds (s.worker i).ctx.nwcHdr, q.files.file x ≠ none) :
    Numbered s (s.stepWorker i q (some d') rest (some fd)) i q := by
  obtain ⟨hserved, hway, hgone, hself⟩ := stepWorker_some (s := s) (i := i) q (some d') rest fd
  rw [Option.bind_some, hk] at hserved hself
  have hsame : ∀ x ∈ liveFds (s.worker i).ctx.nwcHdr,
      Function.update (s.behind i) fd (some k) x = s.behind i x := fun x hx =>
    Function.update_of_ne (fun hxf : x = fd => hfresh (hxf ▸ hx)) ..
  rw [hlive, List.filterMap_append, List.filterMap_congr hsame,
    List.filterMap_cons_some (Function.update_self fd (some k) (s.behind i))] at hserved
  rw [gone_nil hopen] at hgone
  refine ⟨.taken k hserved (hway ▸ hqueue) (hgone.trans (by simp)), fun x hx => ?_⟩
  rw [hself]
  rw [hlive, List.mem_append, List.mem_singleton] at hx
  rcases hx with hx | rfl
  · rw [hsame x hx]
    exact hs.behind i x hx
  · exact ⟨k, Function.update_self ..⟩

/-- A connection arrives, and there is no descriptor for it. -/
theorem Kept.numbered_dropped (hs : s.Kept) (hk : d'.conn = some k)
    (hqueue : s.onTheWay i = k :: rest.filterMap Datagram.conn)
    (hlive : liveFds q.ctx.nwcHdr = liveFds (s.worker i).ctx.nwcHdr)
    (hopen : ∀ x ∈ liveFds (s.worker i).ctx.nwcHdr, q.files.file x ≠ none) :
    Numbered s (s.stepWorker i q (some d') rest none) i q := by
  obtain ⟨hserved, hway, hgone⟩ := stepWorker_none (s := s) (i := i) q (some d') rest
  rw [hlive] at hserved
  rw [Option.bind_some, hk, gone_nil hopen] at hgone
  refine ⟨.dropped k hserved (hway ▸ hqueue) (hgone.trans (by simp)), fun x hx => ?_⟩
  exact hs.behind i x (hlive ▸ hx)

/-- The worker closes the connection of `fd`. -/
theorem Kept.numbered_closed (hs : s.Kept) (hconn : d.bind Datagram.conn = none)
    (hrest : rest.filterMap Datagram.conn = s.onTheWay i) {pre post : List Int}
    (hold : liveFds (s.worker i).ctx.nwcHdr = pre ++ fd :: post)
    (hlive : liveFds q.ctx.nwcHdr = pre ++ post) (hclosed : q.files.file fd = none)
    (hopen : ∀ x ∈ pre ++ post, q.files.file x ≠ none) :
    Numbered s (s.stepWorker i q d rest none) i q := by
  obtain ⟨hserved, hway, hgone⟩ := stepWorker_none (s := s) (i := i) q d rest
  obtain ⟨k, hk⟩ := hs.behind i fd (hold ▸ List.mem_append_right _ List.mem_cons_self)
  rw [hlive, List.filterMap_append] at hserved
  have hbefore : s.served i
      = pre.filterMap (s.behind i) ++ k :: post.filterMap (s.behind i) := by
    rw [MultiServer.served, hold, List.filterMap_append, List.filterMap_cons_some hk]
  have hone : (liveFds (s.worker i).ctx.nwcHdr).filter (fun x => (q.files.file x).isNone)
      = [fd] := by
    have hopen' := List.forall_mem_append.mp hopen
    rw [hold, List.filter_append, gone_nil hopen'.1,
      List.filter_cons_of_pos (by rw [hclosed]; rfl), gone_nil hopen'.2]
    rfl
  rw [hconn, hone, List.filterMap_cons_some hk] at hgone
  refine ⟨.closed [k] ?_ ?_ (hway.trans hrest) (hgone.trans (by simp)), fun x hx => ?_⟩
  · rw [hserved, hbefore]
    exact List.perm_middle
  · rw [hserved, hbefore]
    exact (List.sublist_cons_self _ _).append_left _
  · rw [hlive] at hx
    refine hs.behind i x ?_
    rw [hold]
    exact ((List.sublist_cons_self _ _).append_left _).subset hx

/-- The worker leaves, and closes all that it has. -/
theorem numbered_left (hconn : d.bind Datagram.conn = none)
    (hrest : rest.filterMap Datagram.conn = s.onTheWay i) (hhdr : q.ctx.nwcHdr = [])
    (hclosed : ∀ x ∈ liveFds (s.worker i).ctx.nwcHdr, q.files.file x = none) :
    Numbered s (s.stepWorker i q d rest none) i q := by
  obtain ⟨hserved, hway, hgone⟩ := stepWorker_none (s := s) (i := i) q d rest
  have hall : (liveFds (s.worker i).ctx.nwcHdr).filter (fun x => (q.files.file x).isNone)
      = liveFds (s.worker i).ctx.nwcHdr :=
    List.filter_eq_self.mpr fun x hx => by rw [hclosed x hx]; rfl
  rw [hhdr] at hserved
  rw [hconn, hall] at hgone
  refine ⟨.closed (s.served i) ?_ ?_ (hway.trans hrest)
    (hgone.trans (by simp [MultiServer.served])), fun x hx => ?_⟩
  · rw [hserved]
    exact .of_eq (List.append_nil _).symm
  · rw [hserved]
    exact List.nil_sublist _
  · rw [hhdr] at hx
    exact absurd hx List.not_mem_nil

end Cases

/-- The datagram with `CMD_FD` that a worker has read carries the connection that is first on the
way to it. -/
theorem Kept.fd_recv (hs : s.Kept) {m : WorkerMsg} {d : Option Datagram} {rest : List Datagram}
    (hrecv : recvDatagram (s.pipe i) (some m) = some (d, rest)) (hcmd : m.cmd = CMD_FD) :
    ∃ d' k, d = some d' ∧ d'.conn = some k ∧
      s.onTheWay i = k :: rest.filterMap Datagram.conn := by
  rcases recvDatagram_cases hrecv with ⟨-, -, hfail⟩ | ⟨m', d', hm', rfl, hqueue, hcmd', -⟩
  · exact absurd (hcmd.symm.trans (hfail m rfl).1) (by decide)
  · cases hm'
    rcases hs.cmds i d' (hqueue ▸ List.mem_cons_self) with ⟨-, k, hk⟩ | rfl
    · exact ⟨d', k, rfl, hk, by rw [onTheWay, hqueue, List.filterMap_cons_some hk]⟩
    · exact absurd (hcmd.symm.trans hcmd') (by decide)

/-- What a worker does is a move of its connections, and all that it serves have a number. -/
theorem Kept.stepWorker (hs : s.Kept) {q : WorkerProcess} {msg : Option WorkerMsg}
    {d : Option Datagram} {rest : List Datagram}
    (hchange : Change (s.worker i).ctx.nwcHdr q msg)
    (hrecv : recvDatagram (s.pipe i) msg = some (d, rest)) :
    Numbered s (s.stepWorker i q d rest (msg.bind fun m => m.fd)) i q := by
  rcases hchange with ⟨-, hmsg, hlive, hopen⟩ | ⟨-, m, rfl, hcmd, hlive, hnew, hopen⟩ |
    ⟨-, rfl, pre, post, fd, hold, hlive, hclosed, hopen⟩ | ⟨-, hmsg, hhdr, hclosed⟩
  · obtain ⟨hfd, hconn, hrest⟩ := hs.plain_recv hrecv hmsg
    rw [hfd]
    exact hs.numbered_same hconn hrest hlive hopen
  · obtain ⟨d', k, rfl, hk, hqueue⟩ := hs.fd_recv hrecv hcmd
    rw [Option.bind_some]
    cases hm : m.fd with
    | none =>
      rw [hm, Option.toList_none, List.append_nil] at hlive
      exact hs.numbered_dropped hk hqueue hlive hopen
    | some fd =>
      rw [hm, Option.toList_some] at hlive
      exact hs.numbered_taken hk hqueue (hnew fd hm) hlive hopen
  · obtain ⟨-, hconn, hrest⟩ := hs.plain_recv hrecv (by simp)
    exact hs.numbered_closed hconn hrest hold hlive hclosed hopen
  · obtain ⟨hfd, hconn, hrest⟩ := hs.plain_recv hrecv hmsg
    rw [hfd]
    exact numbered_left hconn hrest hhdr hclosed

theorem Kept.of_stepWorker (hs : s.Kept) {q : WorkerProcess} {msg : Option WorkerMsg}
    {d : Option Datagram} {rest : List Datagram} (htidy : Tidy q)
    (hchange : Change (s.worker i).ctx.nwcHdr q msg)
    (hrecv : recvDatagram (s.pipe i) msg = some (d, rest)) :
    (s.stepWorker i q d rest (msg.bind fun m => m.fd)).Kept := by
  obtain ⟨hmoves, hbehind⟩ := hs.stepWorker hchange hrecv
  have hothers := stepWorker_others (s := s) (i := i) q d rest (msg.bind fun m => m.fd)
  generalize hfd : (msg.bind fun m => m.fd) = fd at hmoves hbehind hothers ⊢
  have hother : ∀ j, j ≠ i → (s.stepWorker i q d rest fd).behind j = s.behind j := by
    intro j hj
    unfold MultiServer.stepWorker
    cases fd with
    | none => rfl
    | some fd => exact Function.update_of_ne hj ..
  refine ⟨fun j => ?_, fun j => ?_, fun j => ?_, fun j => ?_, ?_, fun j => ?_⟩
  · rw [stepWorker_worker]
    split
    · exact htidy
    · exact hs.tidy j
  · rw [stepWorker_worker]
    split
    · rcases hchange with ⟨hphase, -⟩ | ⟨hphase, -⟩ | ⟨hphase, -⟩ | ⟨-, -, hhdr, -⟩
      · exact fun h => absurd h hphase
      · exact fun h => absurd h hphase
      · exact fun h => absurd h hphase
      · exact fun _ => hhdr
    · exact hs.left j
  · rw [stepWorker_pipe]
    split
    · rcases recvDatagram_cases hrecv with ⟨-, rfl, -⟩ | ⟨m, d', -, -, hqueue, -⟩
      · exact hs.cmds i
      · exact fun x hx => hs.cmds i x (hqueue ▸ List.mem_cons_of_mem _ hx)
    · exact hs.cmds j
  · rw [stepWorker_worker]
    split
    · next hj =>
      rw [hj]
      exact hbehind
    · next hj =>
      rw [hother j hj]
      exact hs.behind j
  · exact hmoves.exact hs.exact rfl hothers
  · by_cases hj : j = i
    · exact hj ▸ hmoves.order (hs.order i)
    · rw [(hothers j hj).1, (hothers j hj).2]
      exact hs.order j

/-- The other workers are not touched. -/
theorem Reaped.stepWorker (hreaped : s.Reaped) (q : WorkerProcess) (d : Option Datagram)
    (rest : List Datagram) (fd : Option Int) (j : Fin 4) (hj : j ≠ i)
    (hleft : ((s.stepWorker i q d rest fd).worker j).phase = .left) :
    (s.stepWorker i q d rest fd).pipe j = [] := by
  rw [stepWorker_worker, if_neg hj] at hleft
  rw [stepWorker_pipe, if_neg hj]
  exact hreaped j hleft

theorem Kept.of_reap (hs : s.Kept) (hreaped : ∀ j, j ≠ i → (s.worker j).phase = .left →
    s.pipe j = []) : (s.reap i).Kept ∧ (s.reap i).Reaped := by
  unfold reap
  split
  · have hpipe : ∀ j, Function.update s.pipe i [] j = if j = i then [] else s.pipe j :=
      fun j => Function.update_apply ..
    have hothers : ∀ j, j ≠ i → s.served j = s.served j ∧
        (Function.update s.pipe i [] j).filterMap Datagram.conn = s.onTheWay j := fun j hj =>
      ⟨rfl, by rw [hpipe, if_neg hj]; rfl⟩
    have hmoves : Moves s { s with
        pipe := Function.update s.pipe i []
        closed := s.closed ++ s.onTheWay i } i :=
      .reaped rfl (by show List.filterMap _ (Function.update s.pipe i [] i) = []
                      rw [hpipe, if_pos rfl]; rfl) rfl
    refine ⟨⟨hs.tidy, hs.left, fun j => ?_, hs.behind, hmoves.exact hs.exact rfl hothers,
      fun j => ?_⟩, fun j hj => ?_⟩
    · dsimp only
      rw [hpipe]
      split
      · exact fun x hx => absurd hx List.not_mem_nil
      · exact hs.cmds j
    · by_cases hj : j = i
      · exact hj ▸ hmoves.order (hs.order i)
      · show (s.served j ++ (Function.update s.pipe i [] j).filterMap Datagram.conn).Pairwise _
        rw [(hothers j hj).2]
        exact hs.order j
    · dsimp only
      rw [hpipe]
      split
      · rfl
      · next hne => exact hreaped j hne hj
  · next hgo =>
    refine ⟨hs, fun j hj => ?_⟩
    by_cases hji : j = i
    · exact absurd (hji ▸ hj) hgo
    · exact hreaped j hji hj

/-! ## The master -/

theorem Kept.lt_accepted (hs : s.Kept) : ∀ j, ∀ k ∈ s.served j ++ s.onTheWay j, k < s.accepted := by
  intro j k hk
  rcases List.mem_append.mp hk with hk | hk
  · exact hs.exact.lt (k := .worker j) hk
  · exact hs.exact.lt (k := .pipe j) hk

theorem push_pipe (j : Fin 4) (d : Datagram) (x : Fin 4) :
    (s.push j d).pipe x = if x = j then s.pipe j ++ [d] else s.pipe x :=
  Function.update_apply ..

theorem push_onTheWay (j : Fin 4) (d : Datagram) (x : Fin 4) : (s.push j d).onTheWay x
    = if x = j then s.onTheWay j ++ d.conn.toList else s.onTheWay x := by
  rw [onTheWay, push_pipe]
  split
  · rw [List.filterMap_append, onTheWay]
    refine congrArg (_ ++ ·) ?_
    cases hd : d.conn with
    | none => exact List.filterMap_cons_none hd
    | some k => exact List.filterMap_cons_some hd
  · rfl

theorem Kept.push_cmds (hs : s.Kept) (j : Fin 4) {d : Datagram}
    (hd : (d.cmd = CMD_FD ∧ ∃ k, d.conn = some k) ∨ d = .exit) (x : Fin 4) :
    ∀ d' ∈ (s.push j d).pipe x, (d'.cmd = CMD_FD ∧ ∃ k, d'.conn = some k) ∨ d' = .exit := by
  rw [push_pipe]
  split
  · exact List.forall_mem_append.mpr ⟨hs.cmds j, List.forall_mem_singleton.mpr hd⟩
  · exact hs.cmds x

theorem Reaped.push (hreaped : s.Reaped) {j : Fin 4} (hj : (s.worker j).phase ≠ .left)
    (d : Datagram) : (s.push j d).Reaped := by
  intro x hx
  rw [push_pipe, if_neg fun hxj : x = j => hj (hxj ▸ hx)]
  exact hreaped x hx

/-- An exit command brings no connection. -/
theorem Kept.push_exit (hs : s.Kept) (j : Fin 4) : (s.push j .exit).Kept := by
  have hway : ∀ x, (s.push j .exit).onTheWay x = s.onTheWay x := by
    intro x
    rw [push_onTheWay]
    split
    · next hx =>
      rw [hx]
      exact List.append_nil _
    · rfl
  refine ⟨hs.tidy, hs.left, hs.push_cmds j (Or.inr rfl), hs.behind,
    hs.exact.of_perm fun x => .of_eq ?_, fun x => ?_⟩
  · cases x with
    | pipe x => exact hway x
    | worker x => rfl
    | closed => rfl
  · rw [hway]
    exact hs.order x

/-- The connection that was accepted last gets a place. -/
theorem Kept.of_handOver (hs : s.Kept) (hreaped : s.Reaped) (j : Fin 4) (sent : Bool) :
    (s.handOver j sent).Kept ∧ (s.handOver j sent).Reaped := by
  unfold handOver
  split
  · next hgo =>
    have hway := push_onTheWay (s := s) j { cmd := CMD_FD, conn := some s.accepted }
    refine ⟨⟨hs.tidy, hs.left, hs.push_cmds j (Or.inl ⟨rfl, s.accepted, rfl⟩), hs.behind,
      hs.exact.issue (k := .pipe j) ((hway j).trans (if_pos rfl)) fun x hx => ?_, fun x => ?_⟩,
      hreaped.push hgo.2 _⟩
    · cases x with
      | pipe x => exact (hway x).trans (if_neg fun hxj : x = j => hx (hxj ▸ rfl))
      | worker x => rfl
      | closed => rfl
    · show (s.served x
        ++ (s.push j { cmd := CMD_FD, conn := some s.accepted }).onTheWay x).Pairwise _
      rw [hway]
      split
      · next hx =>
        rw [← hx, ← List.append_assoc]
        refine List.pairwise_append.mpr ⟨hs.order x, List.pairwise_singleton _ _, ?_⟩
        exact fun k hk l hl => by rw [List.mem_singleton.mp hl]; exact hs.lt_accepted x k hk
      · exact hs.order x
  · refine ⟨⟨hs.tidy, hs.left, hs.cmds, hs.behind, hs.exact.issue (k := .closed) rfl
      fun x hx => ?_, hs.order⟩, hreaped⟩
    cases x with
    | pipe x => rfl
    | worker x => rfl
    | closed => exact absurd rfl hx

/-! ## Runs -/

theorem Tidy.step {p q : WorkerProcess} (hp : Tidy p) {e : WorkerProcess.Event}
    (h : p.step e = some q) : Tidy q := by
  refine WorkerProcess.Inv.step hp (fun _ _ _ => Or.inr rfl) ?_ h
  unfold Admits
  split
  · split
    · exact fun _ _ _ => trivial
    · exact fun _ => Or.inl rfl
  · trivial

theorem step_kept (hs : s.Kept) (hreaped : s.Reaped) {e : MultiEvent} (h : s.step e = some s') :
    s'.Kept ∧ s'.Reaped := by
  cases e with
  | worker i e =>
    simp only [step] at h
    split at h
    · next q d rest hq hrecv =>
      cases h
      have hkept := hs.of_stepWorker ((hs.tidy i).step hq) ((hs.tidy i).change hq) hrecv
      exact hkept.of_reap (hreaped.stepWorker _ _ _ _)
    · cases h
  | killed i =>
    simp only [step] at h
    split at h
    · cases h
      have hkept := hs.of_stepWorker (leave_inv (hs.tidy i).uses)
        (Change.leave (s.worker i) none (by simp)) rfl
      exact hkept.of_reap (hreaped.stepWorker _ _ _ _)
    · cases h
  | master e sent =>
    simp only [step] at h
    split at h
    · next q d rest hq hrecv =>
      -- the master itself has no connections
      have hkept : ∀ own, Kept { s with master := q, own := own } := fun own =>
        ⟨hs.tidy, hs.left, hs.cmds, hs.behind, hs.exact, hs.order⟩
      split at h
      · cases h
        exact ⟨hkept _, hreaped⟩
      · cases h
        exact (hkept _).of_handOver hreaped _ sent
    · cases h
  | notifyExit sent =>
    simp only [step] at h
    split at h
    · split at h
      · have hkept : Kept { s with exits := s.exits + 1 } :=
          ⟨hs.tidy, hs.left, hs.cmds, hs.behind, hs.exact, hs.order⟩
        split at h
        · next hgo =>
          cases h
          exact ⟨hkept.push_exit _, Reaped.push (s := { s with exits := _ }) hreaped hgo.2 _⟩
        · cases h
          exact ⟨hkept, hreaped⟩
      · cases h
    · cases h

theorem boot_kept {files : Table Unit} {sockFd : Int} {pairs : List (Int × Int)} {pair : Int × Int}
    (h : boot files sockFd pairs pair = some s) : s.Kept ∧ s.Reaped := by
  unfold boot at h
  split at h
  · cases h
  · next files₁ hsock =>
    split at h
    · next a b c d files₂ hfork =>
      split at h
      · next files₃ hpair =>
        cases h
        have hworkers : ∀ i : Fin 4, ∃ files' fd, [a, b, c, d].get i
            = enter files' (-1, fd) (-1) ∧ files'.file fd ≠ none :=
          fun i => (forkWorkers_cases hfork).1 _ (List.get_mem [a, b, c, d] i)
        have hhdr : ∀ i : Fin 4, ([a, b, c, d].get i).ctx.nwcHdr = [] := by
          intro i
          obtain ⟨files', fd, heq, -⟩ := hworkers i
          rw [heq]
          rfl
        have hserved : ∀ i : Fin 4, liveFds ([a, b, c, d].get i).ctx.nwcHdr = [] :=
          fun i => by rw [hhdr]; rfl
        refine ⟨⟨fun i => ?_, fun i _ => hhdr i, fun i d hd => absurd hd List.not_mem_nil,
          fun i fd hfd => ?_, Custody.exact_zero fun x => ?_, fun i => ?_⟩, fun i _ => rfl⟩
        · obtain ⟨files', fd, heq, hopen⟩ := hworkers i
          show Tidy ([a, b, c, d].get i)
          rw [heq]
          exact enter_inv (fun _ _ _ => Or.inr rfl) hopen (fun h => absurd rfl h)
            fun _ _ => trivial
        · rw [hserved] at hfd
          exact absurd hfd List.not_mem_nil
        · cases x with
          | pipe i => rfl
          | worker i =>
            show List.filterMap _ (liveFds ([a, b, c, d].get i).ctx.nwcHdr)
              = []
            rw [hserved]
            rfl
          | closed => rfl
        · show (List.filterMap _ (liveFds ([a, b, c, d].get i).ctx.nwcHdr)
            ++ []).Pairwise _
          rw [hserved]
          exact List.Pairwise.nil
      · cases h
    · cases h

/-- Every run of the five processes. -/
theorem run_kept {files : Table Unit} {sockFd : Int} {pairs : List (Int × Int)} {pair : Int × Int}
    {events : List MultiEvent} (hboot : boot files sockFd pairs pair = some s)
    (hrun : replay step s events = some s') : s'.Kept ∧ s'.Reaped :=
  replay_invariant (P := fun s => s.Kept ∧ s.Reaped) (I := fun _ => True)
    (fun _ _ _ _ h hstep => step_kept h.1 h.2 hstep) (fun _ _ => trivial) (boot_kept hboot) hrun

theorem Kept.live_nodup (hs : s.Kept) (i : Fin 4) :
    (liveFds (s.worker i).ctx.nwcHdr).Nodup ∧
      ∀ fd ∈ liveFds (s.worker i).ctx.nwcHdr, (s.worker i).files.file fd ≠ none := by
  by_cases hphase : (s.worker i).phase = .left
  · rw [hs.left i hphase]
    exact ⟨List.nodup_nil, fun fd hfd => absurd hfd List.not_mem_nil⟩
  · have hsound := ((hs.tidy i).serving hphase).toSound
    exact ⟨List.Nodup.sublist (List.Sublist.filter _ ((List.sublist_cons_self _ _).trans
      (List.sublist_cons_self _ _))) hsound.nodup, hsound.live_open⟩

theorem Kept.map_behind (hs : s.Kept) (i : Fin 4) :
    (liveFds (s.worker i).ctx.nwcHdr).map (s.behind i) = (s.served i).map some := by
  have hbehind := hs.behind i
  unfold served
  generalize liveFds (s.worker i).ctx.nwcHdr = fds at hbehind ⊢
  induction fds with
  | nil => rfl
  | cons fd fds ih =>
    obtain ⟨⟨k, hk⟩, hrest⟩ := List.forall_mem_cons.mp hbehind
    rw [List.filterMap_cons_some hk, List.map_cons, List.map_cons, hk, ih hrest]

/-! ## The hand-over -/

/--
Each connection that was accepted is at one place, and a worker gets its connections in the order
of `accept`. The descriptors in the ring of a worker are open and different, and the connections
behind them are different too.
-/
structure HandedOver (s : MultiServer) : Prop where
  exact : Custody.Exact s.accepted s.place
  order : ∀ i, (s.served i ++ s.onTheWay i).Pairwise (· < ·)
  live : ∀ i, (liveFds (s.worker i).ctx.nwcHdr).Nodup ∧
    ∀ fd ∈ liveFds (s.worker i).ctx.nwcHdr, (s.worker i).files.file fd ≠ none
  behind : ∀ i, (liveFds (s.worker i).ctx.nwcHdr).map (s.behind i) = (s.served i).map some

/--
**No connection is lost, served twice or served under the descriptor of another one.**

In every run of the five processes: also when workers are killed, when `sendmsg` or `recvmsg` fails
and when a worker can have no more descriptors.
-/
theorem handOver_exact (files : Table Unit) (sockFd : Int) (pairs : List (Int × Int))
    (pair : Int × Int) (events : List MultiEvent) (s s' : MultiServer)
    (hboot : boot files sockFd pairs pair = some s) (hrun : replay step s events = some s') :
    s'.HandedOver := by
  obtain ⟨hkept, -⟩ := run_kept hboot hrun
  exact ⟨hkept.exact, hkept.order, hkept.live_nodup, hkept.map_behind⟩

/-- A server that listens on 3, with its pairs. -/
def sampleBoot : Option MultiServer :=
  boot Table.empty 3 [(4, 5), (6, 7), (8, 9), (10, 11)] (12, 13)

/-- The master accepts a connection as 14. -/
def masterAccepts : WorkerProcess.Event :=
  .select (.ready [3] [] false { cmd := 0, fd := none } .blank (.ok 14))

/-- A process takes a datagram from its pair. -/
def takesDatagram (fd cmd : Int) (new : Option Int) : WorkerProcess.Event :=
  .select (.ready [fd] [] false { cmd := cmd, fd := new } .blank (.error EAGAIN))

/-- Three connections, the third of which cannot be sent, and worker `i` gets the first one. -/
def handOverEvents (i : Fin 4) : List MultiEvent :=
  [.master masterAccepts true, .master masterAccepts true, .master masterAccepts false,
    .worker i (takesDatagram 5 CMD_FD (some 6))]

theorem sampleBoot_handedOver : ∃ s ∈ sampleBoot, ∃ s',
    replay step s (handOverEvents 0) = some s' ∧ s'.served 0 = [0] ∧ s'.onTheWay 2 = [1] ∧
      s'.closed = [2] ∧ s'.HandedOver := by
  have hview : (sampleBoot.bind fun s => (replay step s (handOverEvents 0)).map fun s' =>
      (s'.served 0, s'.onTheWay 2, s'.closed)) = some ([0], [1], [2]) := by decide +kernel
  obtain ⟨s, hs, hview⟩ := Option.bind_eq_some_iff.mp hview
  obtain ⟨s', hs', hview⟩ := Option.map_eq_some_iff.mp hview
  obtain ⟨hserved, hway, hclosed⟩ : _ ∧ _ ∧ _ := by simpa using hview
  exact ⟨s, hs, s', hs', hserved, hway, hclosed, handOver_exact _ _ _ _ _ s s' hs hs'⟩

/--
**When all workers have ended, every connection that was accepted is closed, once.**

However they ended: by `CMD_EXIT`, by an error of `select` or by a signal.
-/
theorem shutdown_closes_all (files : Table Unit) (sockFd : Int) (pairs : List (Int × Int))
    (pair : Int × Int) (events : List MultiEvent) (s s' : MultiServer)
    (hboot : boot files sockFd pairs pair = some s) (hrun : replay step s events = some s')
    (hleft : ∀ i, (s'.worker i).phase = .left) :
    s'.closed.Perm (List.range s'.accepted) := by
  obtain ⟨hkept, hreaped⟩ := run_kept hboot hrun
  refine hkept.exact.all_at (k := .closed) fun x hx => ?_
  cases x with
  | pipe i =>
    show (s'.pipe i).filterMap Datagram.conn = []
    rw [hreaped i (hleft i)]
    rfl
  | worker i =>
    show (liveFds (s'.worker i).ctx.nwcHdr).filterMap (s'.behind i) = []
    rw [hkept.left i (hleft i)]
    rfl
  | closed => exact absurd rfl hx

/--
The master gets a signal and leaves. Worker `i` reads `CMD_EXIT`, worker `j` is killed, worker `k`
can have no descriptor for the connection that it finds before `CMD_EXIT`.
-/
def shutdownEvents (i j k l : Fin 4) : List MultiEvent :=
  handOverEvents i
    ++ [.master .signal true, .master (takesDatagram 13 CMD_EXIT none) true,
      .notifyExit true, .worker i (takesDatagram 5 CMD_EXIT none), .killed j, .notifyExit true,
      .notifyExit true, .worker k (takesDatagram 9 CMD_FD none),
      .worker k (takesDatagram 9 CMD_EXIT none), .notifyExit true,
      .worker l (takesDatagram 11 CMD_EXIT none)]

theorem sampleBoot_closes_all : ∃ s ∈ sampleBoot, ∃ s',
    replay step s (shutdownEvents 0 1 2 3) = some s' ∧
      s'.accepted = 3 ∧ s'.closed.Perm (List.range s'.accepted) := by
  have hview : (sampleBoot.bind fun s => (replay step s (shutdownEvents 0 1 2 3)).map fun s' =>
      (s'.accepted, (decide ((s'.worker 0).phase = .left), decide ((s'.worker 1).phase = .left),
        decide ((s'.worker 2).phase = .left), decide ((s'.worker 3).phase = .left))))
      = some (3, true, true, true, true) := by decide +kernel
  obtain ⟨s, hs, hview⟩ := Option.bind_eq_some_iff.mp hview
  obtain ⟨s', hs', hview⟩ := Option.map_eq_some_iff.mp hview
  obtain ⟨hacc, h0, h1, h2, h3⟩ : _ ∧ _ ∧ _ ∧ _ ∧ _ := by simpa using hview
  exact ⟨s, hs, s', hs', hacc, shutdown_closes_all _ _ _ _ _ s s' hs hs' fun i =>
    match i with
    | 0 => h0
    | 1 => h1
    | 2 => h2
    | 3 => h3⟩

end MultiServer

end Nwchecker.UnixIo
