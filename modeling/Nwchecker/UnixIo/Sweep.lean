import Mathlib.Data.Finset.Insert
import Nwchecker.Lib.Loop
import Nwchecker.Lib.Ring
import Nwchecker.UnixIo.MultiProcess
import Nwchecker.UnixIo.Server

/-!
# The sweep of the select server in memory

The loop at the top of `while(1)` in `nwchecker_server.c`, with the pointers: the connections are a
ring of `nwc_hdr`. The loop walks along it, unlinks and frees the connections that were closed, and
fills the sets for `select` from the others on the way.

It asks nothing about the size of a descriptor. `FD_SET` works for descriptors below `FD_SETSIZE`
only, and writes behind the set for the others.

`Nwchecker/UnixIo/Server.lean` has the sweep on the list of the connections, and `SweptTo.server`
says that the two agree.
-/

namespace Nwchecker.UnixIo

open Ring Loop

/-! ## Descriptor sets -/

/-- The descriptors that have a bit. -/
def InFdSet (fd : Int) : Prop := 0 ≤ fd ∧ fd < FD_SETSIZE

instance (fd : Int) : Decidable (InFdSet fd) := inferInstanceAs (Decidable (_ ∧ _))

/-- `fd_set` -/
structure FdSet where
  fds : Finset Int
  inFdSet : ∀ fd ∈ fds, InFdSet fd

/-- `FD_ZERO` -/
def fdZero : FdSet where
  fds := ∅
  inFdSet := by simp

/-- `FD_SET`; `none` when the bit lies outside. -/
def fdSet (set : FdSet) (fd : Int) : Option FdSet :=
  if h : InFdSet fd then
    some
      { fds := insert fd set.fds
        inFdSet := by
          intro fd' hfd'
          rcases Finset.mem_insert.mp hfd' with rfl | hfd'
          · exact h
          · exact set.inFdSet fd' hfd' }
  else none

/-- `if (bit) FD_SET(fd, &set)` -/
def fdSetIf (set : FdSet) (bit : Bool) (fd : Int) : Option FdSet :=
  if bit then fdSet set fd else some set

@[simp] theorem mem_fdZero {fd : Int} : fd ∉ fdZero.fds := by simp [fdZero]

theorem fdSetIf_some (set : FdSet) {bit : Bool} {fd : Int} (h : bit = true → InFdSet fd) :
    ∃ set', fdSetIf set bit fd = some set' ∧
      ∀ fd', fd' ∈ set'.fds ↔ fd' ∈ set.fds ∨ (bit = true ∧ fd = fd') := by
  cases bit with
  | false => exact ⟨set, rfl, by simp⟩
  | true =>
    simp only [fdSetIf, fdSet, if_true, dif_pos (h rfl), Option.some.injEq, exists_eq_left']
    intro fd'
    rw [Finset.mem_insert, or_comm]
    simp [eq_comm]

theorem fdSetIf_none {set : FdSet} {bit : Bool} {fd : Int} (h : ¬(bit = true → InFdSet fd)) :
    fdSetIf set bit fd = none := by
  obtain ⟨rfl, hfd⟩ := Classical.not_imp.mp h
  simp [fdSetIf, fdSet, hfd]

/-! ## Memory -/

/-- The connections and `nwc_hdr`. A node `v : ν` is a `struct nwc_connection`. -/
structure ConnMemory (ν : Type) where
  links : Links ν
  connAt : ν → NwcConnection
  /-- `recv_buffer` is not `NULL`. -/
  recvBuffer : ν → Bool
  /-- The connections whose `recv_buffer` has been freed, and those that have been freed. -/
  freedBuffers : List ν
  freed : List ν
  /-- The descriptors that have been closed. -/
  closed : List Int

section Memory

variable {ν : Type} [DecidableEq ν]

/-- `free_nwc_conn` -/
def ConnMemory.freeNwcConn (m : ConnMemory ν) (nwc : ν) : ConnMemory ν :=
  let m :=
    if m.recvBuffer nwc then
      { m with
        recvBuffer := Function.update m.recvBuffer nwc false
        freedBuffers := m.freedBuffers ++ [nwc] }
    else m
  let m :=
    if (m.connAt nwc).fd ≠ -1 then
      { m with
        closed := m.closed ++ [(m.connAt nwc).fd]
        connAt := Function.update m.connAt nwc { m.connAt nwc with fd := -1 } }
    else m
  { m with freed := m.freed ++ [nwc] }

/-- A connection without a descriptor is freed with its buffer, and nothing is closed. -/
theorem freeNwcConn_dead (m : ConnMemory ν) {nwc : ν} (h : (m.connAt nwc).fd = -1) :
    m.freeNwcConn nwc
      = { m with
          recvBuffer := Function.update m.recvBuffer nwc false
          freedBuffers := m.freedBuffers ++ if m.recvBuffer nwc then [nwc] else []
          freed := m.freed ++ [nwc] } := by
  unfold ConnMemory.freeNwcConn
  cases hbuf : m.recvBuffer nwc with
  | true => simp [h]
  | false =>
    have hsame : Function.update m.recvBuffer nwc false = m.recvBuffer := by
      rw [← hbuf, Function.update_eq_self]
    simp [h, hsame]

/-! ## The loop -/

/-- The variables of the loop. -/
structure SweepState (ν : Type) where
  mem : ConnMemory ν
  nwc : ν
  readfds : FdSet
  writefds : FdSet
  maxFd : Int

inductive SweepExit (ν : Type) where
  /-- `nwc` is back at `nwc_hdr`. -/
  | swept (s : SweepState ν)
  /-- `FD_SET` wrote behind a set. -/
  | wild

/-- One pass of `for (nwc = nwc_hdr.next; nwc != &nwc_hdr;)`. -/
def sweepPass (hdr : ν) (_ : Unit) (s : SweepState ν) : Flow (SweepState ν) (SweepExit ν) :=
  if s.nwc = hdr then .leave (.swept s)
  else
    let conn := s.mem.connAt s.nwc
    if conn.fd = -1 then
      let nwcNext := s.mem.links.next s.nwc
      let nwcPrev := s.mem.links.prev s.nwc
      let mem :=
        { s.mem with links := (s.mem.links.setPrev nwcNext nwcPrev).setNext nwcPrev nwcNext }
      .again { s with mem := mem.freeNwcConn s.nwc, nwc := nwcNext }
    else
      match fdSetIf s.readfds conn.events.read conn.fd,
        fdSetIf s.writefds conn.events.write conn.fd with
      | some readfds, some writefds =>
        .again
          { s with
            nwc := s.mem.links.next s.nwc
            readfds := readfds
            writefds := writefds
            maxFd := if s.maxFd < conn.fd then conn.fd else s.maxFd }
      | _, _ => .leave .wild

/-- The top of `while(1)`, up to `select`, in at most `fuel` passes. -/
def sweep (hdr : ν) (sockFd : Int) (mem : ConnMemory ν) (fuel : Nat) :
    Flow (SweepState ν) (SweepExit ν) :=
  match fdSet fdZero sockFd with
  | none => .leave .wild
  | some readfds =>
    passes (sweepPass hdr) (List.replicate fuel ())
      { mem := mem
        nwc := mem.links.next hdr
        readfds := readfds
        writefds := fdZero
        maxFd := sockFd }

/-- The connection has a descriptor. -/
def ConnMemory.Live (m : ConnMemory ν) (v : ν) : Prop := (m.connAt v).fd ≠ -1

instance (m : ConnMemory ν) (v : ν) : Decidable (m.Live v) := inferInstanceAs (Decidable (¬_))

/--
The loop has come past `done`, and `rest` is still in front of it. What was without a descriptor in
`done` is freed, with its buffer, and nothing else; the ring has all others, and the sets and
`max_fd` say what the live ones of `done` ask for.
-/
structure SweptTo (hdr : ν) (sockFd : Int) (m : ConnMemory ν) (done rest : List ν)
    (s : SweepState ν) : Prop where
  cursor : s.nwc = rest.headD hdr
  ring : IsRing s.mem.links hdr (done.filter (fun v => m.Live v) ++ rest)
  freed : s.mem.freed = m.freed ++ done.filter fun v => ¬m.Live v
  freedBuffers :
    s.mem.freedBuffers = m.freedBuffers ++ done.filter fun v => ¬m.Live v ∧ m.recvBuffer v = true
  buffers : ∀ v ∈ rest, s.mem.recvBuffer v = m.recvBuffer v
  closed : s.mem.closed = m.closed
  connAt : s.mem.connAt = m.connAt
  readfds : ∀ fd, fd ∈ s.readfds.fds ↔
    fd = sockFd ∨ ∃ v ∈ done, m.Live v ∧ (m.connAt v).events.read = true ∧ (m.connAt v).fd = fd
  writefds : ∀ fd, fd ∈ s.writefds.fds ↔
    ∃ v ∈ done, m.Live v ∧ (m.connAt v).events.write = true ∧ (m.connAt v).fd = fd
  maxFd : s.maxFd = ((done.filter fun v => m.Live v).map fun v => (m.connAt v).fd).foldl max sockFd

/-- What the connection is watched for has a bit. -/
def ConnMemory.Fits (m : ConnMemory ν) (v : ν) : Prop :=
  m.Live v → ((m.connAt v).events.read = true → InFdSet (m.connAt v).fd) ∧
    ((m.connAt v).events.write = true → InFdSet (m.connAt v).fd)

instance (m : ConnMemory ν) (v : ν) : Decidable (m.Fits v) := inferInstanceAs (Decidable (_ → _))

variable {m : ConnMemory ν} {hdr v : ν} {sockFd : Int} {done rest xs : List ν} {s : SweepState ν}

omit [DecidableEq ν] in
theorem SweptTo.nwc_eq (h : SweptTo hdr sockFd m done (v :: rest) s) : s.nwc = v := h.cursor

omit [DecidableEq ν] in
theorem SweptTo.nwc_ne (h : SweptTo hdr sockFd m done (v :: rest) s) : s.nwc ≠ hdr := by
  have hnd := h.ring.nodup
  rw [h.nwc_eq]
  intro heq
  simp [heq] at hnd

/-- A connection without a descriptor is unlinked and freed. -/
theorem SweptTo.dead (h : SweptTo hdr sockFd m done (v :: rest) s) (hv : ¬m.Live v) :
    ∃ s', sweepPass hdr () s = .again s' ∧ SweptTo hdr sockFd m (done ++ [v]) rest s' := by
  have hfd : (m.connAt v).fd = -1 := Decidable.not_not.mp hv
  have hnotin : v ∉ rest := by
    have hnd := h.ring.nodup
    grind
  refine ⟨_, by rw [sweepPass, if_neg h.nwc_ne, h.nwc_eq, h.connAt, if_pos hfd], ?_⟩
  rw [freeNwcConn_dead _ (by rw [h.connAt, hfd])]
  refine
    { cursor := h.ring.next_member
      ring := ?_
      freed := ?_
      freedBuffers := ?_
      buffers := ?_
      closed := h.closed
      connAt := h.connAt
      readfds := ?_
      writefds := ?_
      maxFd := ?_ }
  · have hdone : (done ++ [v]).filter (fun w => m.Live w) = done.filter fun w => m.Live w := by
      simp [List.filter_append, hv]
    rw [hdone]
    exact h.ring.remove
  · simp [List.filter_append, hv, h.freed]
  · have hbuf := h.buffers v List.mem_cons_self
    cases hb : m.recvBuffer v with
    | true => simp [List.filter_append, hv, hbuf, hb, h.freedBuffers]
    | false => simp [List.filter_append, hbuf, hb, h.freedBuffers]
  · intro w hw
    have hne : w ≠ v := by
      rintro rfl
      exact hnotin hw
    simp [Function.update_of_ne hne, h.buffers w (List.mem_cons_of_mem v hw)]
  · intro fd
    simp [h.readfds fd, hv, or_and_right, exists_or]
  · intro fd
    simp [h.writefds fd, hv, or_and_right, exists_or]
  · simp [List.filter_append, hv, h.maxFd]

/-- A live connection is put into the sets. -/
theorem SweptTo.live (h : SweptTo hdr sockFd m done (v :: rest) s) (hv : m.Live v)
    (hfits : m.Fits v) :
    ∃ s', sweepPass hdr () s = .again s' ∧ SweptTo hdr sockFd m (done ++ [v]) rest s' := by
  obtain ⟨readfds, hread, hmemr⟩ := fdSetIf_some s.readfds (hfits hv).1
  obtain ⟨writefds, hwrite, hmemw⟩ := fdSetIf_some s.writefds (hfits hv).2
  refine ⟨_, by
    rw [sweepPass, if_neg h.nwc_ne, h.nwc_eq, h.connAt, if_neg hv, hread, hwrite], ?_⟩
  refine
    { cursor := h.ring.next_member
      ring := ?_
      freed := ?_
      freedBuffers := ?_
      buffers := fun w hw => h.buffers w (List.mem_cons_of_mem v hw)
      closed := h.closed
      connAt := h.connAt
      readfds := ?_
      writefds := ?_
      maxFd := ?_ }
  · simpa [List.filter_append, hv] using h.ring
  · simp [List.filter_append, hv, h.freed]
  · simp [List.filter_append, hv, h.freedBuffers]
  · intro fd
    simp [hmemr, h.readfds fd, hv, or_and_right, exists_or, or_assoc]
  · intro fd
    simp [hmemw, h.writefds fd, hv, or_and_right, exists_or]
  · simp only [List.filter_append, List.filter_singleton, hv, decide_true, cond_true,
      List.map_append, List.map_singleton, List.foldl_append, List.foldl_cons, List.foldl_nil,
      ← h.maxFd]
    omega

theorem SweptTo.pass (h : SweptTo hdr sockFd m done (v :: rest) s) (hfits : m.Fits v) :
    ∃ s', sweepPass hdr () s = .again s' ∧ SweptTo hdr sockFd m (done ++ [v]) rest s' := by
  by_cases hv : m.Live v
  · exact h.live hv hfits
  · exact h.dead hv

/-- With a descriptor that has no bit the loop goes wrong. -/
theorem SweptTo.wild (h : SweptTo hdr sockFd m done (v :: rest) s) (hv : ¬m.Fits v) :
    sweepPass hdr () s = .leave .wild := by
  obtain ⟨hlive, hbits⟩ := Classical.not_imp.mp hv
  rw [sweepPass, if_neg h.nwc_ne, h.nwc_eq, h.connAt, if_neg hlive]
  by_cases hread : (m.connAt v).events.read = true → InFdSet (m.connAt v).fd
  · have hwrite : fdSetIf s.writefds (m.connAt v).events.write (m.connAt v).fd = none :=
      fdSetIf_none fun hw => hbits ⟨hread, hw⟩
    rw [hwrite]
    split
    · next heq => cases heq
    · rfl
  · rw [fdSetIf_none hread]

theorem SweptTo.ended (h : SweptTo hdr sockFd m done [] s) :
    sweepPass hdr () s = .leave (.swept s) := by
  rw [sweepPass, if_pos]
  exact h.cursor

/-- From where it is the loop goes round, if all descriptors in front of it have a bit. -/
theorem SweptTo.run (h : SweptTo hdr sockFd m done rest s) (hfits : ∀ v ∈ rest, m.Fits v) :
    ∃ t, SweptTo hdr sockFd m (done ++ rest) [] t ∧ ∀ fuel, rest.length < fuel →
      passes (sweepPass hdr) (List.replicate fuel ()) s = .leave (.swept t) := by
  induction rest generalizing done s with
  | nil =>
    rw [List.append_nil]
    refine ⟨s, h, fun fuel hfuel => ?_⟩
    obtain ⟨k, rfl⟩ := Nat.exists_eq_succ_of_ne_zero (Nat.ne_of_gt hfuel)
    exact passes_cons_leave h.ended _
  | cons v rest ih =>
    obtain ⟨s', hpass, h'⟩ := h.pass (hfits v List.mem_cons_self)
    obtain ⟨t, ht, hall⟩ := ih h' fun w hw => hfits w (List.mem_cons_of_mem v hw)
    refine ⟨t, by simpa using ht, fun fuel hfuel => ?_⟩
    obtain ⟨k, rfl⟩ := Nat.exists_eq_succ_of_ne_zero (Nat.ne_of_gt (Nat.zero_lt_of_lt hfuel))
    rw [List.replicate_succ, passes_cons_again hpass]
    exact hall k (by simpa using hfuel)

/-- Otherwise it goes wrong. -/
theorem SweptTo.run_wild (h : SweptTo hdr sockFd m done rest s) (hfits : ¬∀ v ∈ rest, m.Fits v)
    {fuel : Nat} (hfuel : rest.length < fuel) :
    passes (sweepPass hdr) (List.replicate fuel ()) s = .leave .wild := by
  induction rest generalizing done s fuel with
  | nil => exact absurd (by simp) hfits
  | cons v rest ih =>
    obtain ⟨k, rfl⟩ := Nat.exists_eq_succ_of_ne_zero (Nat.ne_of_gt (Nat.zero_lt_of_lt hfuel))
    rw [List.replicate_succ]
    by_cases hv : m.Fits v
    · have hrest : ¬∀ w ∈ rest, m.Fits w := fun hall =>
        hfits (List.forall_mem_cons.mpr ⟨hv, hall⟩)
      obtain ⟨s', hpass, h'⟩ := h.pass hv
      rw [passes_cons_again hpass]
      exact ih h' hrest (by simpa using hfuel)
    · exact passes_cons_leave (h.wild hv) _

omit [DecidableEq ν] in
/-- In front of the loop. -/
theorem sweptTo_start (hr : IsRing m.links hdr xs) {readfds : FdSet}
    (hmem : ∀ fd, fd ∈ readfds.fds ↔ fd = sockFd) :
    SweptTo hdr sockFd m [] xs
      { mem := m
        nwc := m.links.next hdr
        readfds := readfds
        writefds := fdZero
        maxFd := sockFd } where
  cursor := hr.next_head
  ring := hr
  freed := by simp
  freedBuffers := by simp
  buffers := fun _ _ => rfl
  closed := rfl
  connAt := rfl
  readfds := by simp [hmem]
  writefds := by simp
  maxFd := rfl

/--
**The sweep is exact, as long as the descriptors have a bit.**

For every ring: the loop ends at the head, after one pass for each connection, with the connections
without a descriptor freed once each and the others still in the ring in their order, and with the
sets and `max_fd` as they should be, exactly when the listening socket and all connections that are
watched for something have a descriptor below `FD_SETSIZE`.
-/
theorem sweep_exact_iff (hr : IsRing m.links hdr xs) (sockFd : Int) :
    (∃ t, SweptTo hdr sockFd m xs [] t ∧
        ∀ fuel, xs.length < fuel → sweep hdr sockFd m fuel = .leave (.swept t)) ↔
      InFdSet sockFd ∧ ∀ v ∈ xs, m.Fits v := by
  unfold sweep
  by_cases hsock : InFdSet sockFd
  · have hbit : true = true → InFdSet sockFd := fun _ => hsock
    obtain ⟨readfds, hset, hmem⟩ := fdSetIf_some fdZero hbit
    have hset' : fdSet fdZero sockFd = some readfds := hset
    have hfirst : ∀ fd, fd ∈ readfds.fds ↔ fd = sockFd := by simp [hmem, eq_comm]
    have hstart := sweptTo_start hr hfirst
    rw [hset']
    dsimp only
    by_cases hfits : ∀ v ∈ xs, m.Fits v
    · exact iff_of_true (hstart.run hfits) ⟨hsock, hfits⟩
    · refine iff_of_false ?_ fun h => hfits h.2
      rintro ⟨t, -, hall⟩
      have hswept := hall _ (Nat.lt_succ_self _)
      rw [hstart.run_wild hfits (Nat.lt_succ_self _)] at hswept
      cases hswept
  · have hset : fdSet fdZero sockFd = none := by simp [fdSet, hsock]
    rw [hset]
    refine iff_of_false ?_ fun h => hsock h.1
    rintro ⟨t, -, hall⟩
    cases hall _ (Nat.lt_succ_self _)

/-- A ring of three, the first and the last of which have been closed. -/
def closedAround : ConnMemory (Fin 4) where
  links := { next := fun v => v + 1, prev := fun v => v - 1 }
  connAt := fun v =>
    { NwcConnection.blank with
      fd := if v = 2 then 5 else -1
      events := { read := true, write := false } }
  recvBuffer := fun v => v != 0
  freedBuffers := []
  freed := []
  closed := []

theorem closedAround_ring : IsRing closedAround.links 0 [1, 2, 3] where
  nodup := by decide
  walk := ⟨⟨rfl, rfl⟩, ⟨rfl, rfl⟩, ⟨rfl, rfl⟩, ⟨rfl, rfl⟩, rfl⟩

theorem closedAround_swept :
    ∃ t, SweptTo 0 3 closedAround [1, 2, 3] [] t ∧
      ∀ fuel, 3 < fuel → sweep 0 3 closedAround fuel = .leave (.swept t) :=
  (sweep_exact_iff closedAround_ring 3).mpr (by decide)

/-- A ring of one connection, with the descriptor 1024. -/
def bigDescriptor : ConnMemory (Fin 2) where
  links := { next := fun v => v + 1, prev := fun v => v - 1 }
  connAt := fun _ =>
    { NwcConnection.blank with fd := 1024, events := { read := true, write := false } }
  recvBuffer := fun v => v != 0
  freedBuffers := []
  freed := []
  closed := []

theorem bigDescriptor_not_swept :
    IsRing bigDescriptor.links 0 [1] ∧
      ¬∃ t, SweptTo 0 3 bigDescriptor [1] [] t ∧
        ∀ fuel, 1 < fuel → sweep 0 3 bigDescriptor fuel = .leave (.swept t) := by
  refine ⟨⟨by decide, ⟨rfl, rfl⟩, ⟨rfl, rfl⟩, rfl⟩, ?_⟩
  rintro ⟨t, -, hall⟩
  have hwild : sweep 0 3 bigDescriptor 2 = .leave .wild := rfl
  rw [hall 2 (by decide)] at hwild
  cases hwild

/-! ## The list of the connections -/

omit [DecidableEq ν] in
/-- What is left in the ring, and the sets, are those of the list. -/
theorem SweptTo.server {srv : NwcServer} {t : SweepState ν}
    (h : SweptTo hdr srv.sockFd m xs [] t)
    (hpeers : xs.map m.connAt = srv.peers.map fun p => p.nwc) :
    ∃ ys, IsRing t.mem.links hdr ys ∧
      ys.map t.mem.connAt = srv.sweep.peers.map (fun p => p.nwc) ∧
      (∀ fd, fd ∈ t.readfds.fds ↔ fd ∈ srv.sweep.readfds) ∧
      ∀ fd, fd ∈ t.writefds.fds ↔ fd ∈ srv.sweep.writefds := by
  have hleft : (xs.filter fun v => m.Live v).map m.connAt
      = srv.sweep.peers.map fun p => p.nwc := by
    calc (xs.filter fun v => m.Live v).map m.connAt
        = (xs.map m.connAt).filter fun c => c.fd ≠ -1 := by
          rw [List.filter_map]
          rfl
      _ = (srv.peers.map fun p => p.nwc).filter fun c => c.fd ≠ -1 := by rw [hpeers]
      _ = srv.sweep.peers.map fun p => p.nwc := by
          rw [List.filter_map]
          rfl
  -- what holds of a live member holds of a connection of the list
  have hsame : ∀ P : NwcConnection → Prop,
      (∃ v ∈ xs, m.Live v ∧ P (m.connAt v)) ↔ ∃ p ∈ srv.sweep.peers, P p.nwc := by
    intro P
    have hmem : (∃ c ∈ (xs.filter fun v => m.Live v).map m.connAt, P c) ↔
        ∃ c ∈ srv.sweep.peers.map fun p => p.nwc, P c := by rw [hleft]
    simpa [and_assoc] using hmem
  refine ⟨xs.filter fun v => m.Live v, ?_, ?_, fun fd => ?_, fun fd => ?_⟩
  · simpa using h.ring
  · rw [h.connAt, hleft]
  · rw [h.readfds fd, hsame fun c => c.events.read = true ∧ c.fd = fd]
    have hsock : srv.sweep.sockFd = srv.sockFd := rfl
    simp [NwcServer.readfds, hsock, and_assoc]
  · rw [h.writefds fd, hsame fun c => c.events.write = true ∧ c.fd = fd]
    simp [NwcServer.writefds, and_assoc]

end Memory

end Nwchecker.UnixIo
