import Nwchecker.Iocp.Server

/-!
# The accept that is always posted

One `AcceptEx` is posted by `nwcs_iocp_open`, and one more whenever one has succeeded. Nothing else
posts one, and nobody looks at whether it could be posted, so the server stops accepting with the
first failure.
-/

namespace Nwchecker.Iocp

open Machine Tickets

namespace NwcsIocp

variable {s t : NwcsIocp} {n : Nat}

/-- `AcceptEx` -/
def isAccept (t : Ticket NwcId Oper) : Bool := t.op = .accept

/-- One `AcceptEx` is outstanding, and the listening socket is open. -/
structure KeepsAccepting (s : NwcsIocp) : Prop where
  one : s.desk.waiting.countP isAccept = 1
  opened : s.acceptConn.opened = true

/-- `n` accepts are posted, on the listening socket, and `accept_conn` is where it belongs. -/
structure Listens (n : Nat) (s : NwcsIocp) : Prop where
  accepts : s.desk.waiting.countP isAccept = n
  opened : s.acceptConn.opened = true
  kept : NwcId.acceptConn ∉ s.deleteClientConnHdr
  kinds : ∀ t ∈ s.desk.waiting, (t.op = .accept ↔ t.owner = .acceptConn)

/-! ## What the calls leave alone -/

/-- Only the desk, the listening socket and the delete list matter. -/
theorem Listens.of_same (hl : s.Listens n) (hdesk : t.desk.waiting = s.desk.waiting)
    (hopened : t.acceptConn.opened = s.acceptConn.opened)
    (hdelete : t.deleteClientConnHdr = s.deleteClientConnHdr) : t.Listens n where
  accepts := by
    rw [hdesk]
    exact hl.accepts
  opened := by
    rw [hopened]
    exact hl.opened
  kept := by
    rw [hdelete]
    exact hl.kept
  kinds := by
    rw [hdesk]
    exact hl.kinds

/-- A change that keeps the socket open. -/
theorem Listens.modify (hl : s.Listens n) (k : NwcId) {f : NwcConnection → NwcConnection}
    (hf : ∀ c, (f c).opened = c.opened) : (s.modify k f).Listens n := by
  refine hl.of_same (by simp) ?_ (by simp)
  cases k with
  | acceptConn => exact hf _
  | client i => rfl

theorem Listens.countUp (hl : s.Listens n) (k : NwcId) : (s.countUp k).Listens n :=
  hl.modify k (f := fun c => { c with pendingOps := Words.int32 (c.pendingOps + 1) }) fun _ => rfl

theorem Listens.countDown (hl : s.Listens n) (k : NwcId) : (s.countDown k).Listens n :=
  hl.modify k (f := fun c => { c with pendingOps := Words.int32 (c.pendingOps - 1) }) fun _ => rfl

theorem Listens.refuse (hl : s.Listens n) : s.refuse.Listens n := hl.of_same rfl rfl rfl

theorem Listens.freeNwcIoOp (hl : s.Listens n) (id : Nat) : (s.freeNwcIoOp id).Listens n :=
  hl.of_same rfl rfl rfl

theorem Listens.freeNwcConn (hl : s.Listens n) (i : Nat) : (s.freeNwcConn (.client i)).Listens n :=
  hl.of_same rfl rfl rfl

theorem Listens.moveToDelete (hl : s.Listens n) (i : Nat) :
    (s.moveToDelete (.client i)).Listens n where
  accepts := hl.accepts
  opened := hl.opened
  kept := by
    intro h
    rcases List.mem_append.mp h with h | h
    · exact hl.kept (List.mem_filter.mp h).1
    · cases List.mem_singleton.mp h
  kinds := hl.kinds

/-- An operation on a client. -/
theorem Listens.post_client (hl : s.Listens n) (i : Nat) {op : Oper} (hop : op ≠ .accept) :
    (s.post (.client i) op).Listens n where
  accepts := by
    show (s.desk.post _ _).waiting.countP isAccept = n
    rw [Desk.countP_post, hl.accepts]
    simp [isAccept, hop]
  opened := hl.opened
  kept := hl.kept
  kinds := by
    intro t ht
    rcases Desk.mem_post.mp ht with ht | rfl
    · exact hl.kinds t ht
    · simp [hop]

theorem Listens.post_accept (hl : s.Listens n) : (s.post .acceptConn .accept).Listens (n + 1) where
  accepts := by
    show (s.desk.post _ _).waiting.countP isAccept = n + 1
    rw [Desk.countP_post, hl.accepts]
    rfl
  opened := hl.opened
  kept := hl.kept
  kinds := by
    intro t ht
    rcases Desk.mem_post.mp ht with ht | rfl
    · exact hl.kinds t ht
    · simp

theorem Listens.readRequest (hl : s.Listens n) (i : Nat) (recv : RecvAnswer) :
    (s.nwcsReadRequest (.client i) recv).2.Listens n := by
  have hpost := hl.post_client i (show Oper.read ≠ .accept by decide)
  unfold nwcsReadRequest
  split
  · exact hl.refuse
  · exact hpost.freeNwcIoOp _
  · exact hpost.countUp (.client i)
  · exact hpost.countUp (.client i)

theorem Listens.writeRequest (hl : s.Listens n) (i : Nat) (send : Bool) :
    (s.nwcsWriteRequest (.client i) send).2.Listens n := by
  have hpost := hl.post_client i (show Oper.write ≠ .accept by decide)
  unfold nwcsWriteRequest
  split
  · exact hpost.countUp (.client i)
  · exact hl.refuse

theorem Listens.connect (hl : s.Listens n) (a : LoopAnswers) : (s.connect a).Listens n := by
  have hnew : (s.newClient a.mem).Listens n := hl.of_same rfl rfl rfl
  have hread := hnew.readRequest s.clients a.recv
  unfold NwcsIocp.connect
  dsimp only
  split
  · split
    · next t heq =>
      rw [heq] at hread
      exact hread.of_same rfl rfl rfl
    · next t heq =>
      rw [heq] at hread
      exact hread.freeNwcConn _
  · exact hnew.freeNwcConn _

theorem Listens.reply (hl : s.Listens n) (i : Nat) (a : LoopAnswers) :
    (s.reply (.client i) a).Listens n := by
  have hwrite := hl.writeRequest i a.send
  unfold NwcsIocp.reply
  split
  · next t heq =>
    rw [heq] at hwrite
    have hread := hwrite.readRequest i a.recv
    split
    · next u heq' =>
      rw [heq'] at hread
      exact hread
    · next u heq' =>
      rw [heq'] at hread
      exact hread.moveToDelete i
  · next t heq =>
    rw [heq] at hwrite
    exact hwrite.moveToDelete i

theorem Listens.sweep (hl : s.Listens n) : s.sweep.Listens n := by
  have hfree : ∀ (ks : List NwcId) (t : NwcsIocp), t.Listens n → NwcId.acceptConn ∉ ks →
      (ks.foldl NwcsIocp.freeNwcConn t).Listens n := by
    intro ks
    induction ks with
    | nil => exact fun t ht _ => ht
    | cons k ks ih =>
      intro t ht hk
      rw [List.mem_cons, not_or] at hk
      cases k with
      | acceptConn => exact absurd rfl hk.1
      | client i => exact ih _ (ht.freeNwcConn i) hk.2
  refine hfree _ _ ?_ fun h => hl.kept (List.mem_filter.mp h).1
  exact
    { accepts := hl.accepts
      opened := hl.opened
      kept := fun h => hl.kept (List.mem_filter.mp h).1
      kinds := hl.kinds }

/-! ## One iteration -/

/-- What the packet of an operation on a client leads to. -/
theorem Listens.processMessage (hl : s.Listens n) {t : Ticket NwcId Oper} (hop : t.op ≠ .accept)
    (howner : t.owner ≠ .acceptConn) (a : LoopAnswers) :
    (s.nwcsIocpProcessMessage t.owner t.op a).Listens n := by
  cases hk : t.owner with
  | acceptConn => exact absurd hk howner
  | client i =>
    cases ht : t.op with
    | accept => exact absurd ht hop
    | read => exact hl.reply i a
    | write => exact hl

/-- The end of an iteration. -/
theorem Listens.finish (hl : s.Listens n) (id : Nat) (k : NwcId) :
    ((s.freeNwcIoOp id).countDown k).sweep.Listens n :=
  ((hl.freeNwcIoOp id).countDown k).sweep

/-- An operation has ended. -/
theorem Listens.settle (hl : s.Listens 1) {t : Ticket NwcId Oper} (ht : t ∈ s.desk.waiting) :
    ({ s with desk := s.desk.settle t } : NwcsIocp).Listens (if t.op = .accept then 0 else 1) where
  accepts := by
    have hcount := Desk.countP_settle isAccept ht
    rw [hl.accepts] at hcount
    show (s.desk.settle t).waiting.countP isAccept = _
    by_cases hop : t.op = .accept
    · simp only [isAccept, hop, decide_true, if_true] at hcount ⊢
      omega
    · simp only [isAccept, hop, decide_false, Bool.false_eq_true, if_false] at hcount ⊢
      omega
  opened := hl.opened
  kept := hl.kept
  kinds := fun u hu => hl.kinds u (Desk.mem_settle hu)

/-- The accept that has ended makes room for the next one, if that can be posted. -/
theorem Listens.acceptRequest (hl : s.Listens 0) (a : LoopAnswers) :
    (s.nwcsAcceptRequest a).Listens (a.newsock && a.acceptEx).toNat := by
  unfold nwcsAcceptRequest
  rw [hl.opened, Bool.and_true]
  cases a.newsock with
  | false => exact hl
  | true =>
    cases a.acceptEx with
    | false => exact hl.refuse
    | true => exact hl.post_accept

/-- An accept that ends does so with success, and the next one is posted. -/
def Rearms : Event → Prop
  | .completion t ok _ a => t.op = .accept → ok = true ∧ a.newsock = true ∧ a.acceptEx = true
  | .nothing => True

instance : DecidablePred Rearms
  | .completion t ok _ a =>
    inferInstanceAs (Decidable (t.op = .accept → ok = true ∧ a.newsock = true ∧ a.acceptEx = true))
  | .nothing => .isTrue trivial

/-- The number of accepts behind an iteration. -/
def acceptsAfter (t : Ticket NwcId Oper) (ok : Bool) (a : LoopAnswers) : Nat :=
  if t.op = .accept then (ok && (a.newsock && a.acceptEx)).toNat else 1

theorem Listens.completed (hl : s.Listens 1) {t : Ticket NwcId Oper} (ht : t ∈ s.desk.waiting)
    (rbytes : Nat) (a : LoopAnswers) :
    (s.completed t rbytes a).Listens (acceptsAfter t true a) := by
  have hsettle := (hl.settle ht).modify t.owner (f := fun c => { c with rbytes := rbytes })
    fun _ => rfl
  unfold NwcsIocp.completed acceptsAfter
  dsimp only
  by_cases hop : t.op = .accept
  · rw [if_pos hop] at hsettle ⊢
    rw [hop]
    exact ((hsettle.acceptRequest a).connect a).finish _ _
  · rw [if_neg hop] at hsettle ⊢
    have howner : t.owner ≠ .acceptConn := fun heq => hop ((hl.kinds t ht).mpr heq)
    exact (hsettle.processMessage hop howner a).finish _ _

/-- A client whose operation failed is moved away. -/
theorem Listens.failed (hl : s.Listens 1) {t : Ticket NwcId Oper} (ht : t ∈ s.desk.waiting)
    (hop : t.op ≠ .accept) : (s.failed t).Listens 1 := by
  have hsettle := hl.settle ht
  rw [if_neg hop] at hsettle
  unfold NwcsIocp.failed
  cases hk : t.owner with
  | acceptConn => exact absurd ((hl.kinds t ht).mpr hk) hop
  | client i => exact (hsettle.freeNwcIoOp t.id).moveToDelete i

theorem Listens.step (hl : s.Listens 1) {e : Event} (he : Rearms e) (h : s.step e = some t) :
    t.Listens 1 := by
  cases e with
  | completion u ok rbytes a =>
    simp only [NwcsIocp.step] at h
    split at h
    · next hu =>
      cases h
      by_cases hop : u.op = .accept
      · obtain ⟨hok, hnewsock, hacceptEx⟩ := he hop
        have hafter := hl.completed hu.1 rbytes a
        rw [if_pos hok]
        rwa [acceptsAfter, if_pos hop, hnewsock, hacceptEx] at hafter
      · split
        · have hafter := hl.completed hu.1 rbytes a
          rwa [acceptsAfter, if_neg hop] at hafter
        · exact hl.failed hu.1 hop
    · cases h
  | nothing =>
    cases h
    exact hl

/-- Without the next one, no accept is posted any more. -/
theorem Listens.step_stops (hl : s.Listens 1) {e : Event} (he : ¬Rearms e)
    (h : s.step e = some t) : ¬t.KeepsAccepting := by
  cases e with
  | completion u ok rbytes a =>
    simp only [Rearms, Classical.not_imp] at he
    obtain ⟨hop, hnot⟩ := he
    simp only [NwcsIocp.step] at h
    split at h
    · next hu =>
      cases h
      intro hkeeps
      have hone := hkeeps.one
      split at hone
      · next hok =>
        have hafter := hl.completed hu.1 rbytes a
        rw [acceptsAfter, if_pos hop] at hafter
        have hzero : (true && (a.newsock && a.acceptEx)) = false := by
          rw [Bool.true_and, Bool.and_eq_false_iff]
          by_contra hall
          simp only [not_or, Bool.not_eq_false] at hall
          exact hnot ⟨hok, hall.1, hall.2⟩
        rw [hafter.accepts, hzero] at hone
        cases hone
      · have hsettle := hl.settle hu.1
        rw [if_pos hop] at hsettle
        have hnone : (s.failed u).desk.waiting.countP isAccept = 0 := hsettle.accepts
        rw [hnone] at hone
        cases hone
    · cases h
  | nothing => exact absurd trivial he

theorem open_listens (a : LoopAnswers) :
    (nwcsIocpOpen a).Listens (a.newsock && a.acceptEx).toNat := by
  refine Listens.acceptRequest ?_ a
  exact
    { accepts := rfl
      opened := rfl
      kept := List.not_mem_nil
      kinds := fun _ h => absurd h List.not_mem_nil }

/--
**When the server keeps accepting.**

In every state between iterations exactly one `AcceptEx` is outstanding and the listening socket is
open, if and only if `nwcs_iocp_open` could post the first one, and every accept that ended did so
with success and could be followed by the next one.
-/
theorem keepsAccepting_iff (a : LoopAnswers) (events : List Event) (s : NwcsIocp)
    (hrun : replay step (nwcsIocpOpen a) events = some s) :
    (∀ t, Visits step (nwcsIocpOpen a) events t → t.KeepsAccepting) ↔
      (a.newsock = true ∧ a.acceptEx = true) ∧ ∀ e ∈ events, Rearms e := by
  have hopen := open_listens a
  have hiff : a.newsock = true ∧ a.acceptEx = true →
      ((∀ t, Visits step (nwcsIocpOpen a) events t → t.KeepsAccepting) ↔
        ∀ e ∈ events, Rearms e) := by
    rintro ⟨hnewsock, hacceptEx⟩
    rw [hnewsock, hacceptEx] at hopen
    rw [← along_events hrun]
    exact exact_rule (fun _ hl => ⟨hl.accepts, hl.opened⟩)
      (fun _ _ _ hl he hstep => hl.step he hstep)
      (fun _ _ _ hl he hstep => hl.step_stops he hstep) hopen hrun
  constructor
  · intro hall
    have ha : a.newsock = true ∧ a.acceptEx = true := by
      have hone := (hall _ ⟨[], List.nil_prefix, rfl⟩).one
      rw [hopen.accepts] at hone
      rw [← Bool.and_eq_true]
      by_contra hnot
      rw [Bool.not_eq_true] at hnot
      rw [hnot] at hone
      cases hone
    exact ⟨ha, (hiff ha).mp hall⟩
  · rintro ⟨ha, hall⟩
    exact (hiff ha).mpr hall

theorem clientConnects_keepsAccepting : ∃ s,
    replay step (nwcsIocpOpen allWell) [clientConnects] = some s ∧
      ∀ t, Visits step (nwcsIocpOpen allWell) [clientConnects] t → t.KeepsAccepting := by
  obtain ⟨s, hs⟩ := Option.isSome_iff_exists.mp
    (show (replay step (nwcsIocpOpen allWell) [clientConnects]).isSome by decide +kernel)
  exact ⟨s, hs, (keepsAccepting_iff allWell [clientConnects] s hs).mpr
    ⟨⟨rfl, rfl⟩, by decide +kernel⟩⟩

/-- An accept that fails is the last one. -/
theorem acceptFails_stops : ∃ s,
    replay step (nwcsIocpOpen allWell) [.completion firstAccept false 0 allWell] = some s ∧
      ¬s.KeepsAccepting := by
  obtain ⟨s, hs, hnone⟩ : ∃ s ∈ replay step (nwcsIocpOpen allWell)
      [.completion firstAccept false 0 allWell], s.desk.waiting.countP isAccept = 0 := by
    decide +kernel
  refine ⟨s, hs, fun hkeeps => ?_⟩
  have hone := hkeeps.one
  rw [hnone] at hone
  cases hone

end NwcsIocp

end Nwchecker.Iocp
