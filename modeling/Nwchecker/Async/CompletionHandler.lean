import Nwchecker.Java.Selection
import Nwchecker.Lib.Machine

/-!
# The server with completion handlers

`AsyncServerCompletionHandler.java`: accepts, reads and writes are posted, and their completions are
delivered in any order. An operation is outstanding until its completion is delivered, and may have
ended before that.

The completion of a read posts a write and a read, whatever has been read and whether the last write
is done. `single_iff` says that there is never more than one of each as long as no read ends a
stream and no read completes before the write in front of it.
-/

namespace Nwchecker.Async

open Java Machine

/-- `ASYNC_READ` and `ASYNC_WRITE` -/
inductive OpType where
  | read
  | write
  deriving DecidableEq, Repr

/-- A call of `client.read` or `client.write`. -/
structure Call where
  op : OpType
  /-- How many operations of the kind were outstanding then. -/
  outstanding : Nat
  /-- A read of the channel had completed with `-1`. -/
  ended : Bool
  deriving DecidableEq, Repr

/-- An `AsynchronousSocketChannel`, and what has happened to it. -/
structure Client where
  opened : Bool
  reads : Nat
  writes : Nat
  ended : Bool
  calls : List Call
  deriving DecidableEq, Repr

namespace Client

/-- A channel that `accept` has returned. -/
def accepted : Client := { opened := true, reads := 0, writes := 0, ended := false, calls := [] }

def outstanding (c : Client) : OpType → Nat
  | .read => c.reads
  | .write => c.writes

def addOutstanding (c : Client) : OpType → Client
  | .read => { c with reads := c.reads + 1 }
  | .write => { c with writes := c.writes + 1 }

/-- What `client.read` and `client.write` throw while another one is in progress. -/
def pendingException : OpType → RuntimeException
  | .read => .readPending
  | .write => .writePending

def record (c : Client) (op : OpType) : Client :=
  { c with calls := c.calls ++ [{ op := op, outstanding := c.outstanding op, ended := c.ended }] }

/--
`client.read` or `client.write`. One that is outstanding may have ended, and is not in progress
then. On a closed channel the operation fails, which its completion says.
-/
def post (op : OpType) (inProgress : Bool) : Stmt Client := fun c =>
  if c.opened ∧ 0 < c.outstanding op ∧ inProgress then (c.record op, some (pendingException op))
  else ((c.record op).addOutstanding op, none)

/-- `async_read` -/
def asyncRead (inProgress : OpType → Bool) : Stmt Client := post .read (inProgress .read)

/-- `async_write` -/
def asyncWrite (inProgress : OpType → Bool) : Stmt Client := post .write (inProgress .write)

/-- The completion of an operation is delivered. -/
def delivered (c : Client) : OpType → Client
  | .read => { c with reads := c.reads - 1 }
  | .write => { c with writes := c.writes - 1 }

/-- What a read has returned. -/
def returned (c : Client) (result : Int) : Client :=
  { c with ended := c.ended || decide (result = -1) }

/-- `AsyncIOOPCompletionHandler.completed` -/
def completed (op : OpType) (result : Int) (inProgress : OpType → Bool) : Stmt Client := fun c =>
  match op with
  | .read =>
    (asyncWrite inProgress).andThen (asyncRead inProgress) ((c.delivered .read).returned result)
  | .write => (c.delivered .write, none)

/-- `AsyncIOOPCompletionHandler.failed` -/
def failed (op : OpType) (c : Client) : Client := { c.delivered op with opened := false }

/-- There is never more than one read and one write, and none behind the end of the stream. -/
structure Single (c : Client) : Prop where
  reads : c.reads ≤ 1
  writes : c.writes ≤ 1
  calls : ∀ call ∈ c.calls, call.outstanding = 0 ∧ call.ended = false

end Client

/-- The accepts that are outstanding, and the channels there have been. -/
structure Server where
  accepts : Nat
  clients : List Client
  deriving DecidableEq, Repr

namespace Server

/-- `start` -/
def start : Server := { accepts := 1, clients := [] }

/-- `accept_new_client` -/
def acceptNewClient (s : Server) : Server := { s with accepts := s.accepts + 1 }

inductive Event where
  /-- An accept has completed, with a channel or `null`. The channel may be closed. -/
  | accepted (result : Option Bool)
  | acceptFailed
  | completed (i : Nat) (op : OpType) (result : Int) (inProgress : OpType → Bool)
  | failed (i : Nat) (op : OpType)

/-- A completion is delivered for an operation that is outstanding. -/
def step (s : Server) : Event → Option Server
  | .accepted result =>
    if 0 < s.accepts then
      let s := { s with accepts := s.accepts - 1 }.acceptNewClient
      match result with
      | some true =>
        let client := (Client.asyncRead (fun _ => false) Client.accepted).1
        some { s with clients := s.clients ++ [client] }
      | _ => some s
    else none
  | .acceptFailed => if 0 < s.accepts then some { s with accepts := s.accepts - 1 } else none
  | .completed i op result inProgress =>
    match s.clients[i]? with
    | none => none
    | some c =>
      if 0 < c.outstanding op then
        some { s with clients := s.clients.set i (Client.completed op result inProgress c).1 }
      else none
  | .failed i op =>
    match s.clients[i]? with
    | none => none
    | some c =>
      if 0 < c.outstanding op then
        some { s with clients := s.clients.set i (c.failed op) }
      else none

def Single (s : Server) : Prop := ∀ c ∈ s.clients, c.Single

/-- A read completes with data, and behind the write that has been posted before it. -/
def Good (s : Server) : Event → Prop
  | .completed i .read result _ => result ≠ -1 ∧ ∀ c, s.clients[i]? = some c → c.writes = 0
  | _ => True

end Server

namespace Client

variable {c : Client}

/-! ## A channel -/

/-- The read that follows a read does not come behind the end of a stream. -/
structure Inv (c : Client) : Prop where
  single : c.Single
  going : c.ended = false

theorem post_call (op : OpType) (inProgress : Bool) (c : Client) :
    { op := op, outstanding := c.outstanding op, ended := c.ended } ∈
      (post op inProgress c).1.calls := by
  unfold post
  split
  · simp [record]
  · cases op with
    | read => simp [addOutstanding, record]
    | write => simp [addOutstanding, record]

/-- An operation that is posted with none of its kind outstanding. -/
theorem post_of_none {op : OpType} (hnone : c.outstanding op = 0) (inProgress : Bool) :
    post op inProgress c = ((c.record op).addOutstanding op, none) := by
  rw [post, if_neg]
  rw [hnone]
  exact fun h => Nat.lt_irrefl 0 h.2.1

theorem Inv.post (hi : c.Inv) {op : OpType} (hnone : c.outstanding op = 0) (inProgress : Bool) :
    (Client.post op inProgress c).1.Inv := by
  have hcalls : ∀ call ∈ (c.record op).calls, call.outstanding = 0 ∧ call.ended = false := by
    intro call hcall
    rcases List.mem_append.mp hcall with hcall | hcall
    · exact hi.single.calls call hcall
    · rw [List.mem_singleton.mp hcall]
      exact ⟨hnone, hi.going⟩
  rw [post_of_none hnone]
  cases op with
  | read =>
    have hreads : c.reads + 1 ≤ 1 := Nat.succ_le_succ (Nat.le_of_eq hnone)
    exact ⟨⟨hreads, hi.single.writes, hcalls⟩, hi.going⟩
  | write =>
    have hwrites : c.writes + 1 ≤ 1 := Nat.succ_le_succ (Nat.le_of_eq hnone)
    exact ⟨⟨hi.single.reads, hwrites, hcalls⟩, hi.going⟩

theorem Inv.delivered (hi : c.Inv) (op : OpType) : (c.delivered op).Inv := by
  cases op with
  | read =>
    have hreads : c.reads - 1 ≤ 1 := Nat.le_trans (Nat.sub_le _ _) hi.single.reads
    exact ⟨⟨hreads, hi.single.writes, hi.single.calls⟩, hi.going⟩
  | write =>
    have hwrites : c.writes - 1 ≤ 1 := Nat.le_trans (Nat.sub_le _ _) hi.single.writes
    exact ⟨⟨hi.single.reads, hwrites, hi.single.calls⟩, hi.going⟩

theorem Inv.failed (hi : c.Inv) (op : OpType) : (c.failed op).Inv where
  single :=
    { reads := (hi.delivered op).single.reads
      writes := (hi.delivered op).single.writes
      calls := (hi.delivered op).single.calls }
  going := (hi.delivered op).going

theorem Inv.returned (hi : c.Inv) {result : Int} (hresult : result ≠ -1) :
    (c.returned result).Inv where
  single := { reads := hi.single.reads, writes := hi.single.writes, calls := hi.single.calls }
  going := by simp [Client.returned, hi.going, hresult]

/-- A read that completes with data while no write is outstanding. -/
theorem Inv.completed_read (hi : c.Inv) (hwrites : c.writes = 0) {result : Int}
    (hresult : result ≠ -1) (inProgress : OpType → Bool) :
    (completed .read result inProgress c).1.Inv := by
  have hreads : c.reads - 1 = 0 := Nat.sub_eq_zero_of_le hi.single.reads
  have hstart : ((c.delivered .read).returned result).Inv := (hi.delivered .read).returned hresult
  have hnone : ((c.delivered .read).returned result).outstanding .write = 0 := hwrites
  have hposted := post_of_none hnone (inProgress .write)
  have hwrite := hstart.post hnone (inProgress .write)
  rw [completed, Stmt.andThen_of_none (by rw [asyncWrite, hposted])]
  refine hwrite.post ?_ (inProgress .read)
  rw [hposted]
  exact hreads

/-- The call of `client.write` is recorded, whether it throws or not. -/
theorem completed_read_call (result : Int) (inProgress : OpType → Bool) (c : Client) :
    { op := .write, outstanding := c.writes, ended := c.ended || decide (result = -1) } ∈
      (completed .read result inProgress c).1.calls := by
  have hcall := post_call .write (inProgress .write) ((c.delivered .read).returned result)
  rw [completed]
  by_cases hnone : (asyncWrite inProgress ((c.delivered .read).returned result)).2 = none
  · rw [Stmt.andThen_of_none hnone, asyncRead, post]
    split
    · exact List.mem_append_left _ hcall
    · exact List.mem_append_left _ hcall
  · rw [Stmt.andThen_of_ne hnone]
    exact hcall

theorem inv_accepted : (asyncRead (fun _ => false) accepted).1.Inv := by
  have hstart : accepted.Inv := ⟨⟨by decide, by decide, by decide⟩, rfl⟩
  exact hstart.post rfl false

end Client

namespace Server

variable {s t : Server}

/-! ## The server -/

def Inv (s : Server) : Prop := ∀ c ∈ s.clients, c.Inv

theorem Inv.setClient (hi : s.Inv) (i : Nat) {c : Client} (hc : c.Inv) :
    Inv { s with clients := s.clients.set i c } := by
  intro d hd
  rcases List.mem_or_eq_of_mem_set hd with hd | rfl
  · exact hi d hd
  · exact hc

theorem Inv.step (hi : s.Inv) {ev : Event} (hgood : s.Good ev) (hstep : s.step ev = some t) :
    t.Inv := by
  cases ev with
  | accepted result =>
    rw [Server.step] at hstep
    split at hstep
    · dsimp only at hstep
      split at hstep
      · cases hstep
        intro c hc
        rcases List.mem_append.mp hc with hc | hc
        · exact hi c hc
        · rw [List.mem_singleton.mp hc]
          exact Client.inv_accepted
      · cases hstep
        exact hi
    · cases hstep
  | acceptFailed =>
    rw [Server.step] at hstep
    split at hstep
    · cases hstep
      exact hi
    · cases hstep
  | completed i op result inProgress =>
    rw [Server.step] at hstep
    split at hstep
    · cases hstep
    · next c hc =>
      have hinv := hi c (List.mem_of_getElem? hc)
      split at hstep
      · cases hstep
        refine hi.setClient i ?_
        cases op with
        | read => exact hinv.completed_read (hgood.2 c hc) hgood.1 inProgress
        | write => exact hinv.delivered .write
      · cases hstep
  | failed i op =>
    rw [Server.step] at hstep
    split at hstep
    · cases hstep
    · next c hc =>
      split at hstep
      · cases hstep
        exact hi.setClient i ((hi c (List.mem_of_getElem? hc)).failed op)
      · cases hstep

/-- Behind the end of a stream, or in front of the completion of a write, one too many is posted. -/
theorem not_single_of_step {ev : Event} (hbad : ¬s.Good ev) (hstep : s.step ev = some t) :
    ¬t.Single := by
  cases ev with
  | accepted result => exact absurd trivial hbad
  | acceptFailed => exact absurd trivial hbad
  | failed i op => exact absurd trivial hbad
  | completed i op result inProgress =>
    cases op with
    | write => exact absurd trivial hbad
    | read =>
      rw [step] at hstep
      split at hstep
      · cases hstep
      · next c hc =>
        split at hstep
        · cases hstep
          obtain ⟨hlt, -⟩ := List.getElem?_eq_some_iff.mp hc
          intro hsingle
          have hcall := (hsingle _ (List.mem_set hlt _)).calls _
            (Client.completed_read_call result inProgress c)
          refine hbad ⟨fun hend => ?_, fun d hd => ?_⟩
          · simp [hend] at hcall
          · rw [hc] at hd
            cases hd
            exact hcall.1
        · cases hstep

/--
**There is never more than one read and one write of a channel as long as no read ends the stream,
and none completes before the write that has been posted before it.**
-/
theorem single_iff {es : List Event} (h : replay step start es = some t) :
    (∀ u, Visits step start es u → u.Single) ↔ Along step start es Good := by
  have hstart : start.Inv := fun c hc => absurd hc List.not_mem_nil
  exact exact_rule (fun _ hi c hc => (hi c hc).single)
    (fun _ _ _ hi hgood hstep => hi.step hgood hstep)
    (fun _ _ _ _ hbad hstep => not_single_of_step hbad hstep) hstart h

/-- A client that asks once more after each answer, and is gone then. -/
def inTurn : List Event :=
  [.accepted (some true), .completed 0 .read 13 fun _ => false,
    .completed 0 .write 13 fun _ => false, .completed 0 .read 13 fun _ => false, .failed 0 .read]

theorem inTurn_single : (replay step start inTurn).isSome ∧
    ((∀ u, Visits step start inTurn u → u.Single) ↔ Along step start inTurn Good) :=
  ⟨by decide, single_iff (show replay step start inTurn = some _ from rfl)⟩

/-- A client that does not wait for the answer, and one that ends the stream. -/
theorem early_not_single :
    ¬ (∀ u, Visits step start [.accepted (some true), .completed 0 .read 13 fun _ => true,
        .completed 0 .read 13 fun _ => true] u → u.Single) ∧
      ¬ (∀ u, Visits step start [.accepted (some true),
        .completed 0 .read (-1) fun _ => true] u → u.Single) := by
  refine ⟨fun h => ?_, fun h => ?_⟩
  · have hcalls := (h _ ⟨_, List.prefix_rfl, rfl⟩ _ List.mem_cons_self).calls
    exact absurd hcalls (by decide)
  · have hcalls := (h _ ⟨_, List.prefix_rfl, rfl⟩ _ List.mem_cons_self).calls
    exact absurd hcalls (by decide)

end Server

end Nwchecker.Async
