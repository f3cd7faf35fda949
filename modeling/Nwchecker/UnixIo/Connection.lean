import Nwchecker.Lib.Descriptors
import Nwchecker.Types

/-!
# Connections of the select and signal servers

`nwc_connection.c` of the exercise on Unix I/O, and what `nwchecker_server.c` and
`nwchecker_server_multiprocess.c` do with one connection when `select` has returned: the bodies of
their two `for` loops are the same but for `echo_mode`.
-/

namespace Nwchecker.UnixIo

open Descriptors

/-- The bits 1 and 2 of `events`. -/
structure Events where
  read : Bool
  write : Bool
  deriving DecidableEq, Repr

/-- `struct nwc_connection`, as far as it decides what happens. -/
structure NwcConnection where
  fd : Int
  events : Events
  addr : SockAddr
  deriving DecidableEq, Repr

/-- Cleared memory. -/
def NwcConnection.blank : NwcConnection where
  fd := 0
  events := { read := false, write := false }
  addr := { port := 0, addr := 0 }

/-- `alloc_nwc_conn_arg0`: all but the links stays as `malloc` left it. -/
def allocNwcConnArg0 (mem : NwcConnection) : NwcConnection := mem

/-- `alloc_nwc_conn` -/
def allocNwcConn (mem : NwcConnection) (fd : Int) : NwcConnection := { mem with fd := fd }

/-- `free_nwc_conn`: what is open afterwards. -/
def freeNwcConn {φ : Type} (files : Table φ) (nwc : NwcConnection) : Table φ :=
  if nwc.fd ≠ -1 then files.closed nwc.fd else files

/-- `destroy_all_nwc` -/
def destroyAllNwc {φ : Type} (files : Table φ) (hdr : List NwcConnection) : Table φ :=
  hdr.foldl freeNwcConn files

/-! ## One connection in the loop -/

/-- The answers of `recv` and `send` for one connection: a count of bytes, or `errno`. -/
structure ServeAnswers where
  recv : Except Int Nat
  send : Except Int Nat

/-- What a pass of the loop does with its connection. -/
structure Visit where
  nwc : NwcConnection
  /-- `recv` returned data. -/
  received : Bool
  /-- `send` took the pong. -/
  answered : Bool
  /-- The connection was closed and the loop is left. -/
  left : Bool

/-- The connection is closed. -/
def Visit.dead (nwc : NwcConnection) (received : Bool) : Visit where
  nwc := { nwc with fd := -1 }
  received := received
  answered := false
  left := true

/-- From `if (!(nwc->events & 2) || FD_ISSET(nwc->fd, &writefds))` on. -/
def serveAnswer (sends writable : Bool) (nwc : NwcConnection) (received : Bool)
    (send : Except Int Nat) : Visit :=
  if !nwc.events.write || writable then
    let nwc := { nwc with events := { nwc.events with write := false } }
    if sends then
      match send with
      | .ok _ => { nwc := nwc, received := received, answered := true, left := false }
      | .error errno =>
        if errno = EINTR then { nwc := nwc, received := received, answered := false, left := false }
        else if errno = EAGAIN then
          { nwc := { nwc with events := { nwc.events with write := true } }
            received := received
            answered := false
            left := false }
        else Visit.dead nwc received
    else { nwc := nwc, received := received, answered := false, left := false }
  else { nwc := nwc, received := received, answered := false, left := false }

/--
The body of the loop. `recvs` and `sends` are `echo_mode != 3` and `echo_mode != 2`, `readable` and
`writable` what `FD_ISSET` says about the connection.
-/
def serveVisit (recvs sends readable writable : Bool) (nwc : NwcConnection) (a : ServeAnswers) :
    Visit :=
  if readable && recvs then
    match a.recv with
    | .ok 0 => Visit.dead nwc false
    | .ok (_ + 1) => serveAnswer sends writable nwc true a.send
    | .error errno =>
      -- an interrupted or empty receive goes on to the answer
      if errno = EINTR ∨ errno = EAGAIN then serveAnswer sends writable nwc false a.send
      else Visit.dead nwc false
  else serveAnswer sends writable nwc false a.send

/-- `recv` makes the loop close the connection. -/
def recvCloses : Except Int Nat → Bool
  | .ok n => n == 0
  | .error errno => errno != EINTR && errno != EAGAIN

/-! ## Answers and receives -/

/-- `recv` returned data, or the connection is closed. -/
def receivesOrCloses : Except Int Nat → Bool
  | .ok _ => true
  | .error errno => errno != EINTR && errno != EAGAIN

/-- `send` fails, and nothing is left to be sent later. -/
def refuses : Except Int Nat → Bool
  | .ok _ => false
  | .error errno => errno != EAGAIN

/--
A pass is called for: the connection has a pong to send from before, or it is read in this pass. Or
the transport takes no pong.
-/
def CalledFor (readable : Bool) (nwc : NwcConnection) (a : ServeAnswers) : Prop :=
  nwc.events.write = true ∨ (readable = true ∧ receivesOrCloses a.recv = true) ∨
    refuses a.send = true

instance (readable : Bool) (nwc : NwcConnection) (a : ServeAnswers) :
    Decidable (CalledFor readable nwc a) :=
  inferInstanceAs (Decidable (_ ∨ _))

/-- The pongs that wait until the connection is writable. -/
def NwcConnection.owed (nwc : NwcConnection) : Nat := nwc.events.write.toNat

section
variable {sends writable : Bool} {nwc : NwcConnection} {received : Bool} {send : Except Int Nat}

@[simp] theorem serveAnswer_received :
    (serveAnswer sends writable nwc received send).received = received := by
  unfold serveAnswer Visit.dead
  repeat' split
  all_goals rfl

/-- At most one pong is sent or comes to wait. -/
theorem serveAnswer_once : (serveAnswer sends writable nwc received send).answered.toNat
    + (serveAnswer sends writable nwc received send).nwc.owed ≤ 1 := by
  unfold serveAnswer Visit.dead NwcConnection.owed
  repeat' split
  all_goals simp_all

/-- Without a `send` that goes through, now or later, nothing is sent or comes to wait. -/
theorem serveAnswer_refused (hr : refuses send = true) :
    (serveAnswer sends writable nwc received send).answered.toNat
      + (serveAnswer sends writable nwc received send).nwc.owed ≤ nwc.owed := by
  cases send with
  | ok n => cases hr
  | error errno =>
    have hne : errno ≠ EAGAIN := by simpa [refuses] using hr
    unfold serveAnswer Visit.dead NwcConnection.owed
    simp only [if_neg hne]
    repeat' split
    all_goals simp

/-- **A pass that is called for sends what it owes**: no more than what waited and what came. -/
theorem serveVisit_pays {readable : Bool} {a : ServeAnswers} (hc : CalledFor readable nwc a) :
    (serveVisit true sends readable writable nwc a).answered.toNat
        + (serveVisit true sends readable writable nwc a).nwc.owed
      ≤ nwc.owed + (serveVisit true sends readable writable nwc a).received.toNat := by
  -- a pong that waits pays for the pass, and so does data
  have hpaid : ∀ received, nwc.events.write = true ∨ refuses a.send = true ∨ received = true →
      (serveAnswer sends writable nwc received a.send).answered.toNat
          + (serveAnswer sends writable nwc received a.send).nwc.owed
        ≤ nwc.owed + received.toNat := by
    intro received hpay
    have honce := @serveAnswer_once sends writable nwc received a.send
    rcases hpay with hw | hr | rfl
    · have howed : nwc.owed = 1 := by rw [NwcConnection.owed, hw, Bool.toNat_true]
      omega
    · have hrefused := @serveAnswer_refused sends writable nwc received a.send hr
      omega
    · have hone : true.toNat = 1 := rfl
      omega
  have hdead : (Visit.dead nwc false).answered.toNat + (Visit.dead nwc false).nwc.owed
      ≤ nwc.owed + (Visit.dead nwc false).received.toNat := by
    simp [Visit.dead, NwcConnection.owed]
  have hquiet : receivesOrCloses a.recv = false ∨ readable = false →
      nwc.events.write = true ∨ refuses a.send = true ∨ false = true := by
    intro hnot
    rcases hc with hw | ⟨hread, hrecv⟩ | hr
    · exact Or.inl hw
    · rcases hnot with hnot | hnot
      · rw [hrecv] at hnot
        cases hnot
      · rw [hread] at hnot
        cases hnot
    · exact Or.inr (Or.inl hr)
  unfold serveVisit
  split
  · split
    · exact hdead
    · rw [serveAnswer_received]
      exact hpaid true (Or.inr (Or.inr rfl))
    · next errno hrecv =>
      split
      · next herr =>
        rw [serveAnswer_received]
        refine hpaid false (hquiet (Or.inl ?_))
        rw [hrecv]
        rcases herr with rfl | rfl
        · rfl
        · rfl
      · exact hdead
  · next hread =>
    rw [serveAnswer_received]
    refine hpaid false (hquiet (Or.inr ?_))
    simpa using hread

end

/-! ## A ring of connections -/

/-- The descriptors of the connections of a ring. -/
def liveFds (hdr : List NwcConnection) : List Int := (hdr.map fun c => c.fd).filter (· ≠ -1)

theorem liveFds_append (hdr hdr' : List NwcConnection) :
    liveFds (hdr ++ hdr') = liveFds hdr ++ liveFds hdr' := by
  rw [liveFds, List.map_append, List.filter_append]
  rfl

theorem liveFds_cons {c : NwcConnection} (hc : c.fd ≠ -1) (hdr : List NwcConnection) :
    liveFds (c :: hdr) = c.fd :: liveFds hdr := List.filter_cons_of_pos (by simpa using hc)

theorem liveFds_cons_dead {c : NwcConnection} (hc : c.fd = -1) (hdr : List NwcConnection) :
    liveFds (c :: hdr) = liveFds hdr := List.filter_cons_of_neg (by simpa using hc)

/-- The sweep takes out what has no descriptor. -/
theorem liveFds_sweep (hdr : List NwcConnection) :
    liveFds (hdr.filter fun c => c.fd ≠ -1) = liveFds hdr := by
  rw [liveFds, liveFds, List.filter_map, List.filter_map, List.filter_filter]
  refine congrArg (List.map _) (List.filter_congr fun c _ => ?_)
  simp

/-- Connection `i` of a ring, and what the ring has when it is changed. -/
theorem liveFds_set {hdr : List NwcConnection} {i : Nat} {c : NwcConnection}
    (hget : hdr[i]? = some c) (hc : c.fd ≠ -1) : ∃ pre post,
      liveFds hdr = pre ++ c.fd :: post ∧
        ∀ c', liveFds (hdr.set i c') = pre ++ (liveFds [c'] ++ post) := by
  obtain ⟨hi, hget⟩ := List.getElem?_eq_some_iff.mp hget
  obtain ⟨pre, post, hsplit, hlen, -⟩ := @List.exists_of_set _ i c hdr hi
  rw [hget] at hsplit
  refine ⟨liveFds pre, liveFds post, ?_, fun c' => ?_⟩
  · rw [hsplit, liveFds_append, liveFds_cons hc]
  · rw [hsplit, List.set_append_right _ _ (Nat.le_of_eq hlen), ← hlen, Nat.sub_self,
      List.set_cons_zero, liveFds_append, ← List.singleton_append, liveFds_append]

/-- `destroy_all_nwc` closes what the ring has. -/
theorem destroyAllNwc_closed {φ : Type} : ∀ {hdr : List NwcConnection} {files : Table φ} {fd : Int},
    files.file fd = none ∨ fd ∈ liveFds hdr → (destroyAllNwc files hdr).file fd = none
  | [], _, _, h => h.resolve_right List.not_mem_nil
  | c :: hdr, files, fd, h => by
    show (destroyAllNwc (freeNwcConn files c) hdr).file fd = none
    refine destroyAllNwc_closed ?_
    unfold freeNwcConn
    by_cases hc : c.fd = -1
    · rw [liveFds_cons_dead hc] at h
      rw [if_neg (not_not_intro hc)]
      exact h
    · rw [if_pos hc]
      rw [liveFds_cons hc, List.mem_cons] at h
      by_cases hfd : fd = c.fd
      · left
        rw [hfd, Table.closed_file]
      · rw [Table.closed_other _ hfd]
        exact h.imp_right fun h => h.resolve_left hfd

end Nwchecker.UnixIo
