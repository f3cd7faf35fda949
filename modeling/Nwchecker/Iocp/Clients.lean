import Nwchecker.Iocp.Balance
import Nwchecker.Lib.Custody

/-!
# Where the clients are

A client is in the list of the server, or in the list of those that are to go, or has been freed;
and the server reads from it with one operation at a time, since it has one buffer. Both hold in
every run, however wrong `pending_ops` may be: `clients_exact` and `reads_exact`.
-/

namespace Nwchecker.Iocp

open Machine Tickets

/-- The number of a client. -/
def NwcId.index : NwcId → Option Nat
  | .acceptConn => none
  | .client i => some i

inductive ClientPlace where
  | listed
  | deleting
  | freed
  deriving DecidableEq

/-- The ticket is for a read on client `i`. -/
def isRead (i : Nat) (t : Ticket NwcId Oper) : Bool := t.op = .read && t.owner = .client i

namespace NwcsIocp

/-- The clients in the two lists, and those that `free_nwc_conn` has been called for. -/
def place (s : NwcsIocp) : ClientPlace → List Nat
  | .listed => s.clientConnHdr
  | .deleting => s.deleteClientConnHdr.filterMap NwcId.index
  | .freed => s.freedConns.filterMap fun f => f.nwc.index

/-- How many reads on client `i` are outstanding. -/
def reads (s : NwcsIocp) (i : Nat) : Nat := s.desk.waiting.countP (isRead i)

/-- `held` is the client whose read has been dequeued, and is to be followed by another one. -/
structure Kept (held : Option Nat) (s : NwcsIocp) : Prop where
  exact : Custody.Exact s.clients s.place
  kinds : ∀ t ∈ s.desk.waiting, (t.op = .accept ↔ t.owner = .acceptConn)
  known : ∀ t ∈ s.desk.waiting, ∀ i, t.owner = .client i → i < s.clients
  once : ∀ i, s.reads i ≤ 1
  listed : ∀ i ∈ s.clientConnHdr, some i ≠ held → s.reads i = 1
  dequeued : ∀ i, held = some i → s.reads i = 0

variable {s t : NwcsIocp} {held : Option Nat} {i : Nat}

/-! ## Lists of clients -/

theorem filterMap_filter_index (l : List NwcId) (i : Nat) :
    (l.filter fun k => k ≠ .client i).filterMap NwcId.index
      = (l.filterMap NwcId.index).filter fun j => j ≠ i := by
  rw [List.filterMap_filter, List.filter_filterMap]
  refine List.filterMap_congr fun k _ => ?_
  cases k with
  | acceptConn => rfl
  | client j =>
    by_cases hji : j = i
    · simp [NwcId.index, hji, Option.filter]
    · simp [NwcId.index, hji, Option.filter]

theorem perm_cons_filter {l : List Nat} (hnodup : l.Nodup) (hi : i ∈ l) :
    l.Perm (i :: l.filter fun j => j ≠ i) := by
  have herase : l.erase i = l.filter fun j => j ≠ i := by
    rw [hnodup.erase_eq_filter]
    refine List.filter_congr fun j _ => ?_
    by_cases hji : j = i
    · simp [hji]
    · simp [hji]
  rw [← herase]
  exact List.perm_cons_erase hi

theorem filter_ne_self {l : List Nat} (hi : i ∉ l) : (l.filter fun j => j ≠ i) = l :=
  List.filter_eq_self.mpr fun j hj => by
    have hne : j ≠ i := fun hji => hi (hji ▸ hj)
    simpa using hne

/-! ## Single calls -/

/-- What does not matter. -/
theorem Kept.of_same (h : s.Kept held) (hdesk : t.desk.waiting = s.desk.waiting)
    (hclients : t.clients = s.clients) (hplace : t.place = s.place) : t.Kept held := by
  have hreads : ∀ i, t.reads i = s.reads i := fun i => by rw [reads, hdesk, reads]
  refine ⟨?_, ?_, ?_, fun i => ?_, fun i hi hne => ?_, fun i hi => ?_⟩
  · rw [hclients, hplace]
    exact h.exact
  · rw [hdesk]
    exact h.kinds
  · rw [hdesk, hclients]
    exact h.known
  · rw [hreads]
    exact h.once i
  · have hlisted : t.clientConnHdr = s.clientConnHdr := congrFun hplace .listed
    rw [hreads]
    exact h.listed i (hlisted ▸ hi) hne
  · rw [hreads]
    exact h.dequeued i hi

theorem modify_place (k : NwcId) (f : NwcConnection → NwcConnection) :
    (s.modify k f).place = s.place := by
  cases k <;> rfl

theorem Kept.modify (h : s.Kept held) (k : NwcId) (f : NwcConnection → NwcConnection) :
    (s.modify k f).Kept held :=
  h.of_same (by simp) (by simp) (modify_place k f)

theorem Kept.refuse (h : s.Kept held) : s.refuse.Kept held := h.of_same rfl rfl rfl

theorem Kept.freeNwcIoOp (h : s.Kept held) (id : Nat) : (s.freeNwcIoOp id).Kept held :=
  h.of_same rfl rfl rfl

theorem reads_post (k : NwcId) (op : Oper) (i : Nat) :
    (s.post k op).reads i = s.reads i + if op = .read ∧ k = .client i then 1 else 0 := by
  show (s.desk.post k op).waiting.countP (isRead i) = _
  rw [Desk.countP_post]
  simp [reads, isRead]

/-- An operation that is no read. -/
theorem Kept.post_other (h : s.Kept held) {k : NwcId} {op : Oper} (hop : op ≠ .read)
    (hkind : op = .accept ↔ k = .acceptConn) (hknown : ∀ i, k = .client i → i < s.clients) :
    (s.post k op).Kept held := by
  have hreads : ∀ i, (s.post k op).reads i = s.reads i := fun i => by
    rw [reads_post, if_neg fun hread => hop hread.1, Nat.add_zero]
  have hmem : ∀ u ∈ (s.post k op).desk.waiting, u ∈ s.desk.waiting ∨ u.owner = k ∧ u.op = op := by
    intro u hu
    rcases Desk.mem_post.mp hu with hu | rfl
    · exact Or.inl hu
    · exact Or.inr ⟨rfl, rfl⟩
  refine ⟨h.exact, fun u hu => ?_, fun u hu j hj => ?_, fun j => ?_, fun j hj hne => ?_,
    fun j hj => ?_⟩
  · rcases hmem u hu with hu | ⟨hk, ho⟩
    · exact h.kinds u hu
    · rw [hk, ho]
      exact hkind
  · rcases hmem u hu with hu | ⟨hk, -⟩
    · exact h.known u hu j hj
    · exact hknown j (hk ▸ hj)
  · rw [hreads]
    exact h.once j
  · rw [hreads]
    exact h.listed j hj hne
  · rw [hreads]
    exact h.dequeued j hj

/-- The read that follows the one that was dequeued. -/
theorem Kept.post_read (h : s.Kept (some i)) (hi : i < s.clients) :
    (s.post (.client i) .read).Kept none := by
  have hself : (s.post (.client i) .read).reads i = 1 := by
    rw [reads_post, if_pos ⟨rfl, rfl⟩, h.dequeued i rfl]
  have hother : ∀ j, j ≠ i → (s.post (.client i) .read).reads j = s.reads j := fun j hj => by
    rw [reads_post, if_neg fun hread => hj (NwcId.client.inj hread.2).symm, Nat.add_zero]
  refine ⟨h.exact, fun u hu => ?_, fun u hu j hj => ?_, fun j => ?_, fun j hj _ => ?_,
    fun j hj => (by cases hj)⟩
  · rcases Desk.mem_post.mp hu with hu | rfl
    · exact h.kinds u hu
    · simp
  · rcases Desk.mem_post.mp hu with hu | rfl
    · exact h.known u hu j hj
    · exact NwcId.client.inj hj ▸ hi
  · by_cases hji : j = i
    · rw [hji]
      exact Nat.le_of_eq hself
    · rw [hother j hji]
      exact h.once j
  · by_cases hji : j = i
    · rw [hji, hself]
    · rw [hother j hji]
      exact h.listed j hj fun heq => hji (Option.some.inj heq)

/-- A client goes to the delete list, whether it reads or not. -/
theorem Kept.moveToDelete (h : s.Kept held) (hheld : ∀ j, held = some j → j = i)
    (hi : i ∈ s.place .listed ∨ i ∈ s.place .deleting) :
    (s.moveToDelete (.client i)).Kept none := by
  have hlisted : (s.moveToDelete (.client i)).place .listed
      = (s.place .listed).filter fun j => j ≠ i :=
    List.filter_congr fun j _ => by simp
  have hdeleting : (s.moveToDelete (.client i)).place .deleting
      = ((s.place .deleting).filter fun j => j ≠ i) ++ [i] := by
    show ((s.deleteClientConnHdr.filter fun k => k ≠ NwcId.client i)
      ++ [NwcId.client i]).filterMap NwcId.index = _
    rw [List.filterMap_append, filterMap_filter_index]
    rfl
  refine ⟨?_, h.kinds, h.known, h.once, fun j hj _ => ?_, fun j hj => (by cases hj)⟩
  · rcases hi with hi | hi
    · have hnot : i ∉ s.place .deleting := fun hin =>
        h.exact.apart .listed .deleting (by decide) hi hin
      rw [filter_ne_self hnot] at hdeleting
      refine h.exact.transfer .listed .deleting [i] (by decide) ?_ (.of_eq hdeleting)
        fun x hl hd => ?_
      · rw [hlisted]
        exact perm_cons_filter (h.exact.once .listed) hi
      · cases x with
        | listed => exact absurd rfl hl
        | deleting => exact absurd rfl hd
        | freed => rfl
    · have hnot : i ∉ s.place .listed := fun hin =>
        h.exact.apart .listed .deleting (by decide) hin hi
      rw [filter_ne_self hnot] at hlisted
      refine h.exact.of_perm fun x => ?_
      cases x with
      | listed => exact .of_eq hlisted
      | deleting =>
        rw [hdeleting]
        exact (List.perm_append_singleton i _).trans
          (perm_cons_filter (h.exact.once .deleting) hi).symm
      | freed => exact .refl _
  · rw [show (s.moveToDelete (.client i)).clientConnHdr = _ from hlisted] at hj
    obtain ⟨hj, hne⟩ := List.mem_filter.mp hj
    exact h.listed j hj fun heq => (by simpa using hne : j ≠ i) (hheld j heq.symm)

/-! ## The requests -/

theorem Kept.acceptRequest (h : s.Kept none) (a : LoopAnswers) :
    (s.nwcsAcceptRequest a).Kept none := by
  unfold nwcsAcceptRequest
  split
  · split
    · exact h.post_other (by decide) (by simp) (by simp)
    · exact h.refuse
  · exact h

/-- The answer to what was read. -/
theorem Kept.reply (h : s.Kept (some i)) (hi : i ∈ s.place .listed ∨ i ∈ s.place .deleting)
    (a : LoopAnswers) : (s.reply (.client i) a).Kept none := by
  have hlt : i < s.clients := hi.elim h.exact.lt h.exact.lt
  unfold NwcsIocp.reply nwcsWriteRequest
  cases a.send with
  | false => exact h.refuse.moveToDelete (fun j hj => (Option.some.inj hj).symm) hi
  | true =>
    have hwrite : ((s.post (.client i) .write).countUp (.client i)).Kept (some i) :=
      (h.post_other (by decide) (by simp) fun j hj => NwcId.client.inj hj ▸ hlt).modify _ _
    have hplace : ((s.post (.client i) .write).countUp (.client i)).place = s.place :=
      modify_place ..
    have hlt' : i < ((s.post (.client i) .write).countUp (.client i)).clients := by
      rw [countUp, modify_clients]
      exact hlt
    rw [if_pos rfl]
    generalize (s.post (.client i) .write).countUp (.client i) = t at hwrite hplace hlt'
    have hlinked : i ∈ t.place .listed ∨ i ∈ t.place .deleting := hplace ▸ hi
    have hread := hwrite.post_read hlt'
    cases a.recv with
    | refused => exact hwrite.refuse.moveToDelete (fun j hj => (Option.some.inj hj).symm) hlinked
    | pending => exact hread.modify _ _
    | done rbytes =>
      cases rbytes with
      | zero => exact (hread.freeNwcIoOp _).moveToDelete (fun j hj => (by cases hj)) hlinked
      | succ _ => exact hread.modify _ _

/-- A new client gets its place, with a read if that is the list. -/
theorem Kept.issue (h : s.Kept none) (k : ClientPlace) (hclients : t.clients = s.clients + 1)
    (hplace : t.place k = s.place k ++ [s.clients])
    (hothers : ∀ x, x ≠ k → t.place x = s.place x)
    (hdesk : (t.desk.waiting = s.desk.waiting ∧ k ≠ .listed) ∨
      t.desk = s.desk.post (.client s.clients) .read) : t.Kept none := by
  have hnew : s.reads s.clients = 0 := by
    refine List.countP_eq_zero.mpr fun u hu hread => ?_
    have howner : u.owner = .client s.clients := by simp [isRead] at hread; exact hread.2
    exact Nat.lt_irrefl _ (h.known u hu _ howner)
  have hmem : ∀ u ∈ t.desk.waiting, u ∈ s.desk.waiting ∨
      u.owner = .client s.clients ∧ u.op = .read := by
    intro u hu
    rcases hdesk with ⟨hdesk, -⟩ | hdesk
    · exact Or.inl (hdesk ▸ hu)
    · rcases Desk.mem_post.mp (hdesk ▸ hu) with hu | rfl
      · exact Or.inl hu
      · exact Or.inr ⟨rfl, rfl⟩
  have hother : ∀ j, j ≠ s.clients → t.reads j = s.reads j := by
    intro j hj
    rcases hdesk with ⟨hdesk, -⟩ | hdesk
    · rw [reads, hdesk, reads]
    · have hpost := reads_post (s := s) (.client s.clients) .read j
      rw [if_neg fun hread => hj (NwcId.client.inj hread.2).symm, Nat.add_zero] at hpost
      rw [reads, hdesk]
      exact hpost
  have hself : t.desk = s.desk.post (.client s.clients) .read → t.reads s.clients = 1 := by
    intro hdesk
    have hpost := reads_post (s := s) (.client s.clients) .read s.clients
    rw [if_pos ⟨rfl, rfl⟩, hnew] at hpost
    rw [reads, hdesk]
    exact hpost
  refine ⟨hclients ▸ h.exact.issue hplace hothers, fun u hu => ?_, fun u hu j hj => ?_, fun j => ?_,
    fun j hj _ => ?_, fun j hj => (by cases hj)⟩
  · rcases hmem u hu with hu | ⟨howner, hop⟩
    · exact h.kinds u hu
    · rw [howner, hop]
      simp
  · rw [hclients]
    rcases hmem u hu with hu | ⟨howner, -⟩
    · exact Nat.lt_succ_of_lt (h.known u hu j hj)
    · rw [NwcId.client.inj (hj.symm.trans howner)]
      exact Nat.lt_succ_self _
  · by_cases hjn : j = s.clients
    · rw [hjn]
      rcases hdesk with ⟨hdesk, -⟩ | hdesk
      · rw [reads, hdesk]
        exact Nat.le_trans (Nat.le_of_eq hnew) (Nat.zero_le 1)
      · exact Nat.le_of_eq (hself hdesk)
    · rw [hother j hjn]
      exact h.once j
  · by_cases hk : k = .listed
    · have hj' : j ∈ s.place .listed ++ [s.clients] := by
        rw [← hk, ← hplace, hk]
        exact hj
      rcases List.mem_append.mp hj' with hj' | hj'
      · rw [hother j (Nat.ne_of_lt (h.exact.lt hj'))]
        exact h.listed j hj' (by simp)
      · rw [List.mem_singleton.mp hj']
        exact hself (hdesk.resolve_left fun hsame => hsame.2 hk)
    · have hj' : j ∈ s.place .listed := hothers .listed (fun heq => hk heq.symm) ▸ hj
      rw [hother j (Nat.ne_of_lt (h.exact.lt hj'))]
      exact h.listed j hj' (by simp)

theorem Kept.connect (h : s.Kept none) (a : LoopAnswers) : (s.connect a).Kept none := by
  have hfreed : ∀ t : NwcsIocp, t.freedConns = s.freedConns →
      (t.freeNwcConn (.client s.clients)).place .freed = s.place .freed ++ [s.clients] := by
    intro t ht
    show (t.freedConns ++ [_]).filterMap _ = _
    rw [ht, List.filterMap_append]
    rfl
  have hothers : ∀ t : NwcsIocp, t.clientConnHdr = s.clientConnHdr →
      t.deleteClientConnHdr = s.deleteClientConnHdr → ∀ x, x ≠ .freed →
        (t.freeNwcConn (.client s.clients)).place x = s.place x := by
    intro t ht ht' x hx
    cases x with
    | listed => exact ht
    | deleting => exact congrArg (List.filterMap NwcId.index) ht'
    | freed => exact absurd rfl hx
  have hkeeps : ∀ t : NwcsIocp, t.clientConnHdr = s.clientConnHdr ++ [s.clients] →
      t.deleteClientConnHdr = s.deleteClientConnHdr → t.freedConns = s.freedConns → ∀ x,
        x ≠ .listed → t.place x = s.place x := by
    intro t _ ht ht' x hx
    cases x with
    | listed => exact absurd rfl hx
    | deleting => exact congrArg (List.filterMap NwcId.index) ht
    | freed => exact congrArg (List.filterMap _) ht'
  unfold NwcsIocp.connect
  cases a.associates with
  | false =>
    exact h.issue .freed rfl (hfreed _ rfl) (hothers _ rfl rfl) (Or.inl ⟨rfl, by decide⟩)
  | true =>
    cases a.recv with
    | refused =>
      exact h.issue .freed rfl (hfreed _ rfl) (hothers _ rfl rfl) (Or.inl ⟨rfl, by decide⟩)
    | pending => exact h.issue .listed rfl rfl (hkeeps _ rfl rfl rfl) (Or.inr rfl)
    | done rbytes =>
      cases rbytes with
      | zero => exact h.issue .freed rfl (hfreed _ rfl) (hothers _ rfl rfl) (Or.inr rfl)
      | succ _ => exact h.issue .listed rfl rfl (hkeeps _ rfl rfl rfl) (Or.inr rfl)

/-- What is unused goes from the delete list. -/
theorem Kept.sweep (h : s.Kept none) : s.sweep.Kept none := by
  have hs := sweep_frees s
  have hreads : ∀ i, s.sweep.reads i = s.reads i := fun i => by rw [reads, hs.desk, reads]
  refine ⟨?_, ?_, ?_, fun i => ?_, fun i hi _ => ?_, fun i hi => (by cases hi)⟩
  · rw [hs.clients]
    refine h.exact.transfer .deleting .freed
      ((s.deleteClientConnHdr.filter s.unused).filterMap NwcId.index) (by decide) ?_ ?_
      fun x hd hf => ?_
    · show (s.deleteClientConnHdr.filterMap NwcId.index).Perm
        (_ ++ s.sweep.deleteClientConnHdr.filterMap NwcId.index)
      rw [hs.delete, ← List.filterMap_append]
      exact ((List.filter_append_perm s.unused s.deleteClientConnHdr).filterMap _).symm
    · show (s.sweep.freedConns.filterMap fun f => f.nwc.index).Perm
        ((s.freedConns.filterMap fun f => f.nwc.index) ++ _)
      rw [hs.freed, List.filterMap_append, List.filterMap_map]
      exact .refl _
    · cases x with
      | listed => exact hs.hdr
      | deleting => exact absurd rfl hd
      | freed => exact absurd rfl hf
  · rw [hs.desk]
    exact h.kinds
  · rw [hs.desk, hs.clients]
    exact h.known
  · rw [hreads]
    exact h.once i
  · rw [hs.hdr] at hi
    rw [hreads]
    exact h.listed i hi (by simp)

/-! ## One iteration -/

/-- The client whose read has ended. -/
def ended (t : Ticket NwcId Oper) : Option Nat := if t.op = .read then t.owner.index else none

/-- The packet of an operation is dequeued. -/
theorem Kept.settle (h : s.Kept none) {u : Ticket NwcId Oper} (hu : u ∈ s.desk.waiting) :
    ({ s with desk := s.desk.settle u } : NwcsIocp).Kept (ended u) := by
  have hreads : ∀ i, (s.desk.settle u).waiting.countP (isRead i) + (if isRead i u then 1 else 0)
      = s.reads i := fun i => Desk.countP_settle (isRead i) hu
  have hended : ∀ i, isRead i u = true ↔ ended u = some i := by
    intro i
    cases hk : u.owner with
    | acceptConn => simp [isRead, ended, hk, NwcId.index]
    | client j => simp [isRead, ended, hk, NwcId.index]
  refine ⟨h.exact, fun x hx => h.kinds x (Desk.mem_settle hx),
    fun x hx => h.known x (Desk.mem_settle hx), fun i => ?_, fun i hi hne => ?_, fun i hi => ?_⟩
  · have hle := h.once i
    have hcount := hreads i
    show (s.desk.settle u).waiting.countP (isRead i) ≤ 1
    omega
  · have hcount := hreads i
    rw [if_neg fun hread => hne ((hended i).mp hread).symm, h.listed i hi (by simp)] at hcount
    exact hcount
  · have hle := h.once i
    have hcount := hreads i
    rw [if_pos ((hended i).mpr hi)] at hcount
    show (s.desk.settle u).waiting.countP (isRead i) = 0
    omega

/-- A client with an operation that was posted, and that is not freed, is in one of the lists. -/
theorem Kept.linked (h : s.Kept held) {u : Ticket NwcId Oper} (hu : u ∈ s.desk.waiting)
    (halive : s.alive u = true) (howner : u.owner = .client i) :
    i ∈ s.place .listed ∨ i ∈ s.place .deleting := by
  obtain ⟨x, hx⟩ := (h.exact.somewhere i).mp (h.known u hu i howner)
  cases x with
  | listed => exact Or.inl hx
  | deleting => exact Or.inr hx
  | freed =>
    have hnot : u.owner ∉ s.freedConns.map FreedConn.nwc := by
      simp only [alive, Bool.and_eq_true, decide_eq_true_eq] at halive
      exact halive.2
    obtain ⟨f, hf, hindex⟩ := List.mem_filterMap.mp hx
    refine absurd (List.mem_map.mpr ⟨f, hf, ?_⟩) hnot
    rw [howner]
    cases hk : f.nwc with
    | acceptConn =>
      rw [hk] at hindex
      cases hindex
    | client j =>
      rw [hk] at hindex
      cases hindex
      rfl

theorem Kept.completed (h : s.Kept none) {u : Ticket NwcId Oper} (hu : u ∈ s.desk.waiting)
    (halive : s.alive u = true) (rbytes : Nat) (a : LoopAnswers) :
    (s.completed u rbytes a).Kept none := by
  have hkind := h.kinds u hu
  have hlinked := fun i => @Kept.linked s none i h u hu halive
  have hsettled := (h.settle hu).modify u.owner fun c => { c with rbytes := rbytes }
  have hplace : ({ s with desk := s.desk.settle u }.modify u.owner
      fun c => { c with rbytes := rbytes }).place = s.place := modify_place ..
  unfold NwcsIocp.completed
  dsimp only
  generalize ({ s with desk := s.desk.settle u }.modify u.owner
    fun c => { c with rbytes := rbytes }) = v at hsettled hplace
  have hmessage : (v.nwcsIocpProcessMessage u.owner u.op a).Kept none := by
    cases hop : u.op with
    | accept =>
      rw [ended, hop] at hsettled
      exact (hsettled.acceptRequest a).connect a
    | read =>
      cases howner : u.owner with
      | acceptConn => exact absurd (hop.symm.trans (hkind.mpr howner)) (by decide)
      | client i =>
        rw [ended, hop, howner] at hsettled
        exact hsettled.reply (hplace ▸ hlinked i howner) a
    | write =>
      rw [ended, hop] at hsettled
      exact hsettled
  exact ((hmessage.freeNwcIoOp u.id).modify u.owner _).sweep

theorem Kept.failed (h : s.Kept none) {u : Ticket NwcId Oper} (hu : u ∈ s.desk.waiting)
    (halive : s.alive u = true) : (s.failed u).Kept none := by
  have hkind := h.kinds u hu
  have hsettled := (h.settle hu).freeNwcIoOp u.id
  unfold NwcsIocp.failed
  cases howner : u.owner with
  | acceptConn =>
    have hended : ended u = none := by rw [ended, howner]; split <;> rfl
    rw [hended] at hsettled
    refine hsettled.of_same rfl rfl (funext fun x => ?_)
    cases x with
    | listed => exact List.filter_eq_self.mpr fun i _ => by simp
    | deleting =>
      show ((s.deleteClientConnHdr.filter fun k => k ≠ NwcId.acceptConn)
        ++ [NwcId.acceptConn]).filterMap NwcId.index = s.deleteClientConnHdr.filterMap NwcId.index
      rw [List.filterMap_append, List.filterMap_filter]
      refine (List.append_nil _).trans (List.filterMap_congr fun k _ => ?_)
      cases k with
      | acceptConn => rfl
      | client i => rfl
    | freed => rfl
  | client i =>
    refine hsettled.moveToDelete (fun j hj => ?_) (h.linked hu halive howner)
    unfold ended at hj
    rw [howner] at hj
    split at hj
    · exact (Option.some.inj hj).symm
    · cases hj

theorem Kept.step (h : s.Kept none) {e : Event} (hstep : s.step e = some t) : t.Kept none := by
  cases e with
  | completion u ok rbytes a =>
    simp only [NwcsIocp.step] at hstep
    split at hstep
    · next hready =>
      cases hstep
      split
      · exact h.completed hready.1 hready.2 rbytes a
      · exact h.failed hready.1 hready.2
    · cases hstep
  | nothing =>
    cases hstep
    exact h

theorem open_kept (a : LoopAnswers) : (nwcsIocpOpen a).Kept none := by
  have hlistening : listening.Kept none :=
    ⟨Custody.exact_zero fun x => (by cases x <;> rfl), fun u hu => absurd hu List.not_mem_nil,
      fun u hu => absurd hu List.not_mem_nil, fun i => Nat.zero_le 1,
      fun i hi => absurd hi List.not_mem_nil, fun i hi => (by cases hi)⟩
  exact hlistening.acceptRequest a

theorem run_kept {a : LoopAnswers} {events : List Event}
    (hrun : replay step (nwcsIocpOpen a) events = some s) : s.Kept none :=
  replay_invariant (I := fun _ => True) (fun _ _ _ _ h hstep => h.step hstep) (fun _ _ => trivial)
    (open_kept a) hrun

/-! ## The results -/

/--
**No client is lost, and none is freed twice or while it is in a list.**

In every run: also when operations fail, and when `pending_ops` is wrong.
-/
theorem clients_exact (a : LoopAnswers) (events : List Event) (s : NwcsIocp)
    (hrun : replay step (nwcsIocpOpen a) events = some s) : Custody.Exact s.clients s.place :=
  (run_kept hrun).exact

/-- Two clients connect, and the read from the first one fails. -/
def oneFails : List Event :=
  [clientConnects, .completion { id := 1, owner := .acceptConn, op := .accept } true 0 allWell,
    .completion firstRead false 0 allWell]

theorem oneFails_exact : ∃ s, replay step (nwcsIocpOpen allWell) oneFails = some s ∧
    s.place .listed = [1] ∧ s.place .deleting = [0] ∧ Custody.Exact s.clients s.place := by
  have hview : (replay step (nwcsIocpOpen allWell) oneFails).map (fun s =>
      (s.place .listed, s.place .deleting)) = some ([1], [0]) := by decide +kernel
  obtain ⟨s, hs, hview⟩ := Option.map_eq_some_iff.mp hview
  obtain ⟨hlisted, hdeleting⟩ : _ ∧ _ := by simpa using hview
  exact ⟨s, hs, hlisted, hdeleting, clients_exact allWell oneFails s hs⟩

/-- **The server always reads from a client in its list, and never twice at the same time.** -/
theorem reads_exact (a : LoopAnswers) (events : List Event) (s : NwcsIocp)
    (hrun : replay step (nwcsIocpOpen a) events = some s) :
    (∀ i, s.reads i ≤ 1) ∧ ∀ i ∈ s.clientConnHdr, s.reads i = 1 := by
  have hkept := run_kept hrun
  exact ⟨hkept.once, fun i hi => hkept.listed i hi (by simp)⟩

/-- The second client sends something, and is read from again. -/
theorem oneFails_reads : ∃ s, replay step (nwcsIocpOpen allWell) (oneFails
    ++ [.completion { id := 4, owner := .client 1, op := .read } true 5 allWell]) = some s ∧
      s.clientConnHdr = [1] ∧ (∀ i, s.reads i ≤ 1) ∧ ∀ i ∈ s.clientConnHdr, s.reads i = 1 := by
  have hview : (replay step (nwcsIocpOpen allWell) (oneFails
      ++ [.completion { id := 4, owner := .client 1, op := .read } true 5 allWell])).map
        (fun s => s.clientConnHdr) = some [1] := by decide +kernel
  obtain ⟨s, hs, hhdr⟩ := Option.map_eq_some_iff.mp hview
  exact ⟨s, hs, hhdr, reads_exact allWell _ s hs⟩

end NwcsIocp

end Nwchecker.Iocp
