import Nwchecker.Iocp.Balance

/-!
# Release of connections and operations

A connection that is to go waits in the delete list until its operations have ended, which the loop
knows from `pending_ops`. So it is freed in time if the counter is never too small; that it may be
too large only delays it. An `nwc_io_op` is freed with its packet, or where its call is refused.
-/

namespace Nwchecker.Iocp

open Machine Tickets

namespace NwcsIocp

variable {s t : NwcsIocp} {held : Option Nat}

/-- What is freed, is freed once and is not used any more, and what is to be deleted is idle. -/
structure ReleaseSafe (s : NwcsIocp) : Prop where
  idle : ∀ f ∈ s.freedConns, f.waiting = 0
  once : (s.freedConns.map FreedConn.nwc).Nodup
  acceptKept : NwcId.acceptConn ∉ s.freedConns.map FreedConn.nwc
  acceptApart : NwcId.acceptConn ∉ s.deleteClientConnHdr
  noLatePost : s.latePosts = []
  opsOnce : ∀ id < s.desk.next,
    s.freedOps.count id = if id ∈ s.desk.waiting.map Ticket.id then 0 else 1

/-- `held` is the operation whose packet has been dequeued and that has not been freed yet. -/
structure Releasing (held : Option Nat) (s : NwcsIocp) : Prop where
  idle : ∀ f ∈ s.freedConns, f.waiting = 0
  once : (s.freedConns.map FreedConn.nwc).Nodup
  acceptKept : NwcId.acceptConn ∉ s.freedConns.map FreedConn.nwc
  acceptApart : NwcId.acceptConn ∉ s.deleteClientConnHdr
  noLatePost : s.latePosts = []
  ops : ∀ id, s.freedOps.count id
    = if id < s.desk.next ∧ id ∉ s.desk.waiting.map Ticket.id ∧ some id ≠ held then 1 else 0
  heldOld : ∀ id, held = some id → id < s.desk.next ∧ id ∉ s.desk.waiting.map Ticket.id

theorem Releasing.safe (hr : s.Releasing none) : s.ReleaseSafe where
  idle := hr.idle
  once := hr.once
  acceptKept := hr.acceptKept
  acceptApart := hr.acceptApart
  noLatePost := hr.noLatePost
  opsOnce := by
    intro id hid
    rw [hr.ops]
    by_cases hmem : id ∈ s.desk.waiting.map Ticket.id
    · simp [hmem]
    · simp [hmem, hid]

/-! ## Single calls -/

theorem Releasing.of_same (hr : s.Releasing held) (hdesk : t.desk = s.desk)
    (hdelete : t.deleteClientConnHdr = s.deleteClientConnHdr)
    (hfreed : t.freedConns = s.freedConns) (hops : t.freedOps = s.freedOps)
    (hlate : t.latePosts = s.latePosts) : t.Releasing held := by
  constructor
  · rw [hfreed]
    exact hr.idle
  · rw [hfreed]
    exact hr.once
  · rw [hfreed]
    exact hr.acceptKept
  · rw [hdelete]
    exact hr.acceptApart
  · rw [hlate]
    exact hr.noLatePost
  · rw [hops, hdesk]
    exact hr.ops
  · rw [hdesk]
    exact hr.heldOld

theorem Releasing.modify (hr : s.Releasing held) (k : NwcId) (f : NwcConnection → NwcConnection) :
    (s.modify k f).Releasing held :=
  hr.of_same (by simp) (by simp) (by simp) (by simp) (by simp)

theorem Releasing.countUp (hr : s.Releasing held) (k : NwcId) : (s.countUp k).Releasing held :=
  hr.modify k _

theorem Releasing.countDown (hr : s.Releasing held) (k : NwcId) :
    (s.countDown k).Releasing held :=
  hr.modify k _

/-- An operation on a connection that is not to be deleted. -/
theorem Releasing.post (hr : s.Releasing held) {k : NwcId} (hk : k ∉ s.deleteClientConnHdr)
    (op : Oper) : (s.post k op).Releasing held := by
  have hids : ∀ id, id ∈ (s.desk.post k op).waiting.map Ticket.id ↔
      id ∈ s.desk.waiting.map Ticket.id ∨ id = s.desk.next := by
    intro id
    simp [Desk.post]
  refine
    { idle := hr.idle, once := hr.once, acceptKept := hr.acceptKept
      acceptApart := hr.acceptApart, noLatePost := ?_, ops := ?_, heldOld := ?_ }
  · simp only [NwcsIocp.post, if_neg hk]
    exact hr.noLatePost
  · intro id
    show s.freedOps.count id = if id < s.desk.next + 1 ∧
      id ∉ (s.desk.post k op).waiting.map Ticket.id ∧ some id ≠ held then 1 else 0
    rw [hr.ops]
    refine if_congr ?_ rfl rfl
    rw [hids]
    constructor
    · rintro ⟨hlt, hnot, hne⟩
      exact ⟨by omega, by rw [not_or]; exact ⟨hnot, by omega⟩, hne⟩
    · rintro ⟨hlt, hnot, hne⟩
      rw [not_or] at hnot
      exact ⟨by omega, hnot.1, hne⟩
  · intro id hid
    obtain ⟨hlt, hnot⟩ := hr.heldOld id hid
    refine ⟨Nat.lt_succ_of_lt hlt, ?_⟩
    show id ∉ (s.desk.post k op).waiting.map Ticket.id
    rw [hids, not_or]
    exact ⟨hnot, by omega⟩

/-- The number that comes next is not in use. -/
theorem next_not_waiting (s : NwcsIocp) : s.desk.next ∉ s.desk.waiting.map Ticket.id := by
  intro h
  obtain ⟨t, ht, heq⟩ := List.mem_map.mp h
  have hlt := s.desk.old t ht
  omega

theorem Releasing.refuse (hr : s.Releasing held) : s.refuse.Releasing held where
  idle := hr.idle
  once := hr.once
  acceptKept := hr.acceptKept
  acceptApart := hr.acceptApart
  noLatePost := hr.noLatePost
  ops := by
    intro id
    show (s.freedOps ++ [s.desk.next]).count id = if id < s.desk.next + 1 ∧
      id ∉ s.desk.waiting.map Ticket.id ∧ some id ≠ held then 1 else 0
    rw [List.count_append, hr.ops, List.count_singleton]
    by_cases hid : id = s.desk.next
    · have hheld : some id ≠ held := by
        intro heq
        have := (hr.heldOld id heq.symm).1
        omega
      have hnot := next_not_waiting s
      rw [← hid] at hnot ⊢
      simp [hnot, hheld]
    · have hiff : id < s.desk.next + 1 ↔ id < s.desk.next := by omega
      simp [hiff, Ne.symm hid]
  heldOld := fun id hid => (hr.heldOld id hid).imp_left Nat.lt_succ_of_lt

theorem Releasing.moveToDelete (hr : s.Releasing held) (i : Nat) :
    (s.moveToDelete (.client i)).Releasing held where
  idle := hr.idle
  once := hr.once
  acceptKept := hr.acceptKept
  acceptApart := by
    intro h
    rcases List.mem_append.mp h with h | h
    · exact hr.acceptApart (List.mem_filter.mp h).1
    · cases List.mem_singleton.mp h
  noLatePost := hr.noLatePost
  ops := hr.ops
  heldOld := hr.heldOld

/-- A connection without operations, that has not been freed before. -/
theorem Releasing.freeNwcConn (hr : s.Releasing held) {i : Nat}
    (hcount : s.desk.count (.client i) = 0)
    (hnew : NwcId.client i ∉ s.freedConns.map FreedConn.nwc) :
    (s.freeNwcConn (.client i)).Releasing held where
  idle := by
    intro f hf
    rcases List.mem_append.mp hf with hf | hf
    · exact hr.idle f hf
    · rw [List.mem_singleton.mp hf]
      exact hcount
  once := by
    show ((s.freedConns ++ [_]).map FreedConn.nwc).Nodup
    rw [List.map_append, List.nodup_append]
    refine ⟨hr.once, List.nodup_singleton _, ?_⟩
    rintro x hx y hy rfl
    rw [List.mem_singleton.mp hy] at hx
    exact hnew hx
  acceptKept := by
    show NwcId.acceptConn ∉ (s.freedConns ++ [_]).map FreedConn.nwc
    rw [List.map_append, List.mem_append, not_or]
    exact ⟨hr.acceptKept, by simp⟩
  acceptApart := hr.acceptApart
  noLatePost := hr.noLatePost
  ops := hr.ops
  heldOld := hr.heldOld

/-- The packet of an operation is dequeued. -/
theorem Releasing.settle (hr : s.Releasing none) {u : Ticket NwcId Oper}
    (hu : u ∈ s.desk.waiting) :
    ({ s with desk := s.desk.settle u } : NwcsIocp).Releasing (some u.id) where
  idle := hr.idle
  once := hr.once
  acceptKept := hr.acceptKept
  acceptApart := hr.acceptApart
  noLatePost := hr.noLatePost
  ops := by
    intro id
    rw [hr.ops]
    refine if_congr ?_ rfl rfl
    show _ ↔ id < s.desk.next ∧ id ∉ (s.desk.settle u).waiting.map Ticket.id ∧ some id ≠ some u.id
    rw [Desk.id_settle hu]
    have humem : u.id ∈ s.desk.waiting.map Ticket.id := List.mem_map_of_mem hu
    constructor
    · rintro ⟨hlt, hnot, -⟩
      refine ⟨hlt, fun hmem => hnot hmem.1, fun heq => ?_⟩
      rw [Option.some.injEq] at heq
      rw [heq] at hnot
      exact hnot humem
    · rintro ⟨hlt, hnot, hne⟩
      exact ⟨hlt, fun hmem => hnot ⟨hmem, fun heq => hne (congrArg some heq)⟩, by simp⟩
  heldOld := by
    intro id hid
    rw [Option.some.injEq] at hid
    refine ⟨hid ▸ s.desk.old u hu, ?_⟩
    show id ∉ (s.desk.settle u).waiting.map Ticket.id
    rw [Desk.id_settle hu]
    exact fun hmem => hmem.2 hid.symm

/-- Its `nwc_io_op` is freed. -/
theorem Releasing.freeNwcIoOp {id : Nat} (hr : s.Releasing (some id)) :
    (s.freeNwcIoOp id).Releasing none where
  idle := hr.idle
  once := hr.once
  acceptKept := hr.acceptKept
  acceptApart := hr.acceptApart
  noLatePost := hr.noLatePost
  ops := by
    intro j
    obtain ⟨hlt, hnot⟩ := hr.heldOld id rfl
    show (s.freedOps ++ [id]).count j = if j < s.desk.next ∧
      j ∉ s.desk.waiting.map Ticket.id ∧ some j ≠ none then 1 else 0
    rw [List.count_append, hr.ops, List.count_singleton]
    by_cases hj : j = id
    · rw [hj]
      simp [hlt, hnot]
    · simp [hj, Ne.symm hj]
  heldOld := fun _ hid => by cases hid

/-! ## One iteration -/

/-- `WSARecv` refuses the read or posts it. -/
theorem Releasing.readRequest (hr : s.Releasing held) {k : NwcId}
    (hk : k ∉ s.deleteClientConnHdr) {recv : RecvAnswer} (hrecv : recv ≠ .done 0) :
    (s.nwcsReadRequest k recv).2.Releasing held := by
  unfold nwcsReadRequest
  split
  · exact hr.refuse
  · exact absurd rfl hrecv
  · exact (hr.post hk .read).countUp k
  · exact (hr.post hk .read).countUp k

theorem Releasing.acceptRequest (hr : s.Releasing held) (a : LoopAnswers) :
    (s.nwcsAcceptRequest a).Releasing held := by
  unfold nwcsAcceptRequest
  split
  · split
    · exact hr.post hr.acceptApart .accept
    · exact hr.refuse
  · exact hr

theorem Releasing.connect (hr : s.Releasing held) {E : Int → Prop} {h : NwcId → Nat}
    (hc : s.Counted E h) {a : LoopAnswers} (hrecv : a.associates = true → a.recv ≠ .done 0) :
    (s.connect a).Releasing held := by
  have hnew : (s.newClient a.mem).Releasing held := hr.of_same rfl rfl rfl rfl rfl
  have hnot := hc.not_linked
  have hdelete : NwcId.client s.clients ∉ (s.newClient a.mem).deleteClientConnHdr :=
    fun hmem => hnot (Or.inr hmem)
  have hcount : s.desk.count (.client s.clients) = 0 :=
    Desk.count_eq_zero.mpr fun t ht heq => hnot (hc.linked t ht _ heq)
  have hfreed : NwcId.client s.clients ∉ s.freedConns.map FreedConn.nwc := by
    intro hmem
    obtain ⟨f, hf, hfi⟩ := List.mem_map.mp hmem
    exact Nat.lt_irrefl _ (hc.freed f hf _ hfi).1
  unfold NwcsIocp.connect
  dsimp only
  split
  · next hassociates =>
    have hread := hnew.readRequest hdelete (hrecv hassociates)
    unfold nwcsReadRequest at hread ⊢
    cases ha : a.recv with
    | refused => exact hnew.refuse.freeNwcConn hcount hfreed
    | pending =>
      rw [ha] at hread
      exact hread.of_same rfl rfl rfl rfl rfl
    | done n =>
      rw [ha] at hread
      cases n with
      | zero => exact absurd ha (hrecv hassociates)
      | succ n => exact hread.of_same rfl rfl rfl rfl rfl
  · exact hnew.freeNwcConn hcount hfreed

theorem Releasing.reply (hr : s.Releasing held) {i : Nat} {a : LoopAnswers}
    (hrecv : a.send = true → a.recv ≠ .done 0)
    (hlate : a.send = true → NwcId.client i ∉ s.deleteClientConnHdr) :
    (s.reply (.client i) a).Releasing held := by
  unfold NwcsIocp.reply nwcsWriteRequest
  by_cases hsend : a.send = true
  · have hwrite := (hr.post (hlate hsend) .write).countUp (.client i)
    have hdelete : NwcId.client i ∉
        ((s.post (.client i) .write).countUp (.client i)).deleteClientConnHdr := hlate hsend
    have hread := hwrite.readRequest hdelete (hrecv hsend)
    rw [if_pos hsend]
    dsimp only
    split
    · next u heq =>
      rw [heq] at hread
      exact hread
    · next u heq =>
      rw [heq] at hread
      exact hread.moveToDelete i
  · rw [if_neg hsend]
    exact hr.refuse.moveToDelete i

/-- What the loop frees at its end has no operations any more. -/
theorem Releasing.sweep (hr : s.Releasing none) {E : Int → Prop}
    (hc : s.Counted E fun _ => 0) (hE : ∀ x, E x → 0 ≤ x) : s.sweep.Releasing none := by
  have hs := sweep_frees s
  have hclient : ∀ k ∈ s.deleteClientConnHdr.filter s.unused,
      s.desk.count k = 0 ∧ k ∉ s.freedConns.map FreedConn.nwc ∧ k ≠ .acceptConn := by
    intro k hk
    obtain ⟨hmem, hunused⟩ := List.mem_filter.mp hk
    cases k with
    | acceptConn => exact absurd hmem hr.acceptApart
    | client i =>
      refine ⟨hc.unused_count hE (Or.inr hmem) hunused, fun hfreed => ?_, by simp⟩
      obtain ⟨f, hf, hfi⟩ := List.mem_map.mp hfreed
      exact (hc.freed f hf i hfi).2 (Or.inr hmem)
  have hfreed : s.sweep.freedConns.map FreedConn.nwc
      = s.freedConns.map FreedConn.nwc ++ s.deleteClientConnHdr.filter s.unused := by
    rw [hs.freed, List.map_append, List.map_map]
    exact congrArg _ (List.map_id _)
  constructor
  · intro f hf
    rw [hs.freed, List.mem_append] at hf
    rcases hf with hf | hf
    · exact hr.idle f hf
    · obtain ⟨k, hk, rfl⟩ := List.mem_map.mp hf
      exact (hclient k hk).1
  · rw [hfreed, List.nodup_append]
    refine ⟨hr.once, hc.nodup.filter _, ?_⟩
    rintro x hx y hy rfl
    exact (hclient x hy).2.1 hx
  · rw [hfreed, List.mem_append, not_or]
    exact ⟨hr.acceptKept, fun hmem => (hclient _ hmem).2.2 rfl⟩
  · rw [hs.delete]
    exact fun hmem => hr.acceptApart (List.mem_filter.mp hmem).1
  · rw [hs.late]
    exact hr.noLatePost
  · rw [hs.freedOps, hs.desk]
    exact hr.ops
  · rw [hs.desk]
    exact hr.heldOld

/-- The packet of a successful operation. -/
theorem Releasing.completed (hr : s.Releasing none) {E : Int → Prop} (hE : ∀ x, E x → 0 ≤ x)
    (hc : s.Counted E fun _ => 0) {u : Ticket NwcId Oper} (hu : u ∈ s.desk.waiting) (rbytes : Nat)
    {a : LoopAnswers} (hfits : Fits E s u a)
    (hlate : u.op = .read → a.send = true → u.owner ∉ s.deleteClientConnHdr) :
    (s.completed u rbytes a).Releasing none := by
  have hsettle := (hr.settle hu).modify u.owner fun c => { c with rbytes := rbytes }
  have hcount := (hc.settle hu).modify u.owner (f := fun c => { c with rbytes := rbytes })
    fun _ => rfl
  have hprocess : ((({ s with desk := s.desk.settle u } : NwcsIocp).modify u.owner
      (fun c => { c with rbytes := rbytes })).nwcsIocpProcessMessage u.owner u.op a).Releasing
        (some u.id) := by
    have hreceived := hfits.received
    cases hop : u.op with
    | accept =>
      rw [receives, hop] at hreceived
      exact (hsettle.acceptRequest a).connect (hcount.acceptRequest a) hreceived
    | read =>
      rw [receives, hop] at hreceived
      cases howner : u.owner with
      | acceptConn =>
        rw [(hc.kinds u hu).mpr howner] at hop
        cases hop
      | client i =>
        rw [howner] at hsettle hlate
        exact hsettle.reply hreceived (hlate hop)
    | write => exact hsettle
  have hafter := ((hc.processed hE hu rbytes hfits).freeNwcIoOp u.id).countDown hE
  exact (hprocess.freeNwcIoOp.countDown u.owner).sweep hafter hE

/-- A client whose operation failed. -/
theorem Releasing.failed (hr : s.Releasing none) {E : Int → Prop} (hc : s.Counted E fun _ => 0)
    {u : Ticket NwcId Oper} (hu : u ∈ s.desk.waiting) (hop : u.op ≠ .accept) :
    (s.failed u).Releasing none := by
  have hfree := (hr.settle hu).freeNwcIoOp
  unfold NwcsIocp.failed
  cases howner : u.owner with
  | acceptConn => exact absurd ((hc.kinds u hu).mpr howner) hop
  | client i => exact hfree.moveToDelete i

/-! ## Results -/

/--
No accept fails. And a packet of a successful operation keeps the count from falling behind, and its
connection is not in the delete list when an answer is posted on it.
-/
def KeepsSafe (s : NwcsIocp) : Event → Prop
  | .completion t ok _ a =>
    (ok = false → t.op ≠ .accept) ∧
      (ok = true → Fits (0 ≤ ·) s t a ∧
        (t.op = .read → a.send = true → t.owner ∉ s.deleteClientConnHdr))
  | .nothing => True

instance (s : NwcsIocp) : DecidablePred s.KeepsSafe
  | .completion t ok _ a =>
    inferInstanceAs (Decidable
      ((ok = false → t.op ≠ .accept) ∧
        (ok = true → Fits (0 ≤ ·) s t a ∧
          (t.op = .read → a.send = true → t.owner ∉ s.deleteClientConnHdr))))
  | .nothing => .isTrue trivial

/-- Both invariants at once. -/
theorem Releasing.step (hr : s.Releasing none) (hc : s.Counted (0 ≤ ·) fun _ => 0) {e : Event}
    (he : s.KeepsSafe e) (h : s.step e = some t) :
    t.Releasing none ∧ t.Counted (0 ≤ ·) fun _ => 0 := by
  cases e with
  | completion u ok rbytes a =>
    have hcount := hc.step (fun _ hx => hx) (fun _ _ x hx => by omega) (fun hok => (he.2 hok).1) h
    refine ⟨?_, hcount⟩
    simp only [NwcsIocp.step] at h
    split at h
    · next hu =>
      cases h
      split
      · next hok =>
        obtain ⟨hfits, hlate⟩ := he.2 hok
        exact hr.completed (fun _ hx => hx) hc hu.1 rbytes hfits hlate
      · next hok => exact hr.failed hc hu.1 (he.1 (by simpa using hok))
    · cases h
  | nothing =>
    cases h
    exact ⟨hr, hc⟩

theorem open_releasing (a : LoopAnswers) : (nwcsIocpOpen a).Releasing none := by
  refine Releasing.acceptRequest ?_ a
  exact
    { idle := fun _ hf => absurd hf List.not_mem_nil
      once := List.nodup_nil
      acceptKept := List.not_mem_nil
      acceptApart := List.not_mem_nil
      noLatePost := rfl
      ops := fun _ => rfl
      heldOld := fun _ hid => by cases hid }

/--
**What is released is not used any more, while the counter is not too small.**

In every state between iterations of a run whose events keep it so, connections were freed once and
without outstanding operations, `accept_conn` is not to be freed, nothing was posted on a connection
in the delete list, and every `nwc_io_op` has been freed exactly once if it was dequeued or refused,
and has not been freed otherwise.
-/
theorem releaseSafe (a : LoopAnswers) (events : List Event)
    (hkeeps : Along step (nwcsIocpOpen a) events KeepsSafe) (t : NwcsIocp)
    (hvisit : Visits step (nwcsIocpOpen a) events t) : t.ReleaseSafe := by
  have hboth := visits_invariant (P := fun s => s.Releasing none ∧ s.Counted (0 ≤ ·) fun _ => 0)
    (fun _ _ _ hs he hstep => hs.1.step hs.2 he hstep) ⟨open_releasing a, open_counted a⟩ hkeeps
    hvisit
  exact hboth.1.safe

/-- The read of a client fails while nothing else is outstanding. -/
theorem readFails_releaseSafe : ∃ s,
    replay step (nwcsIocpOpen allWell) [clientConnects, .completion firstRead false 0 allWell]
      = some s ∧ s.ReleaseSafe := by
  obtain ⟨s, hs⟩ := Option.isSome_iff_exists.mp
    (show (replay step (nwcsIocpOpen allWell)
      [clientConnects, .completion firstRead false 0 allWell]).isSome by decide +kernel)
  exact ⟨s, hs, releaseSafe allWell _ (by decide +kernel) s ⟨_, List.prefix_rfl, hs⟩⟩

/-- `accept_conn` comes into the delete list when an accept fails. -/
theorem acceptFails_notReleaseSafe : ∃ s,
    replay step (nwcsIocpOpen allWell) [.completion firstAccept false 0 allWell] = some s ∧
      ¬s.ReleaseSafe := by
  obtain ⟨s, hs, hmoved⟩ : ∃ s ∈ replay step (nwcsIocpOpen allWell)
      [.completion firstAccept false 0 allWell], NwcId.acceptConn ∈ s.deleteClientConnHdr := by
    decide +kernel
  exact ⟨s, hs, fun hsafe => hsafe.acceptApart hmoved⟩

end NwcsIocp

end Nwchecker.Iocp
