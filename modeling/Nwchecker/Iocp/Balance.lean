import Nwchecker.Iocp.Server

/-!
# The count of outstanding operations

`pending_ops` goes up with every operation that is posted on a connection, and down with every one
that completes. `Counted` follows the excess of the count over what is outstanding: the calls keep
it, except that a failed completion adds one to it and that memory brings its own. Two results rest
on this, with two bounds `E` for the excess: none at all, and none below zero.
-/

namespace Nwchecker.Iocp

open Machine Tickets Words

namespace NwcsIocp

variable {s t : NwcsIocp} {E : Int → Prop} {h : NwcId → Nat}

/-- The client connection is in one of the two lists. -/
def Linked (s : NwcsIocp) (i : Nat) : Prop :=
  i ∈ s.clientConnHdr ∨ NwcId.client i ∈ s.deleteClientConnHdr

/--
The excess of `pending_ops` is as `E` has it. `h` counts the operations whose packet has been
dequeued and not been counted off.
-/
structure Counted (E : Int → Prop) (h : NwcId → Nat) (s : NwcsIocp) : Prop where
  balance : ∀ i, s.Linked i →
    E ((s.client i).pendingOps - s.desk.count (.client i) - h (.client i))
  small : ∀ i, s.Linked i → (s.client i).pendingOps < 2147483648
  linked : ∀ t ∈ s.desk.waiting, ∀ i, t.owner = .client i → s.Linked i
  kinds : ∀ t ∈ s.desk.waiting, (t.op = .accept ↔ t.owner = .acceptConn)
  known : ∀ i, s.Linked i → i < s.clients
  apart : ∀ i ∈ s.clientConnHdr, NwcId.client i ∉ s.deleteClientConnHdr
  nodup : s.deleteClientConnHdr.Nodup
  freed : ∀ f ∈ s.freedConns, ∀ i, f.nwc = .client i → i < s.clients ∧ ¬s.Linked i

/-! ## Single calls -/

/-- What does not matter. -/
theorem Counted.of_same (hc : s.Counted E h)
    (hpending : ∀ i, (t.client i).pendingOps = (s.client i).pendingOps)
    (hdesk : t.desk.waiting = s.desk.waiting) (hclients : t.clients = s.clients)
    (hhdr : t.clientConnHdr = s.clientConnHdr)
    (hdelete : t.deleteClientConnHdr = s.deleteClientConnHdr)
    (hfreed : t.freedConns = s.freedConns) : t.Counted E h := by
  have hlinked : ∀ i, t.Linked i ↔ s.Linked i := by
    intro i
    rw [Linked, Linked, hhdr, hdelete]
  constructor
  · intro i hi
    rw [hpending, Desk.count, hdesk]
    exact hc.balance i ((hlinked i).mp hi)
  · intro i hi
    rw [hpending]
    exact hc.small i ((hlinked i).mp hi)
  · intro t ht i hti
    rw [hdesk] at ht
    exact (hlinked i).mpr (hc.linked t ht i hti)
  · rw [hdesk]
    exact hc.kinds
  · intro i hi
    rw [hclients]
    exact hc.known i ((hlinked i).mp hi)
  · rw [hhdr, hdelete]
    exact hc.apart
  · rw [hdelete]
    exact hc.nodup
  · intro f hf i hfi
    rw [hfreed] at hf
    rw [hclients, hlinked]
    exact hc.freed f hf i hfi

/-- A change that does not touch the counter. -/
theorem Counted.modify (hc : s.Counted E h) (k : NwcId) {f : NwcConnection → NwcConnection}
    (hf : ∀ c, (f c).pendingOps = c.pendingOps) : (s.modify k f).Counted E h := by
  refine hc.of_same ?_ (by simp) (by simp) (by simp) (by simp) (by simp)
  intro i
  cases k with
  | acceptConn => rfl
  | client j =>
    rw [modify_client_client]
    split
    · next hij =>
      rw [hij]
      exact hf _
    · rfl

theorem Counted.refuse (hc : s.Counted E h) : s.refuse.Counted E h :=
  hc.of_same (fun _ => rfl) rfl rfl rfl rfl rfl

theorem Counted.freeNwcIoOp (hc : s.Counted E h) (id : Nat) : (s.freeNwcIoOp id).Counted E h :=
  hc.of_same (fun _ => rfl) rfl rfl rfl rfl rfl

/-- The lists lose nothing. -/
theorem linked_moveToDelete {k : NwcId} (hk : ∀ i, k = .client i → s.Linked i) (j : Nat) :
    (s.moveToDelete k).Linked j ↔ s.Linked j := by
  simp only [Linked, moveToDelete, List.mem_filter, List.mem_append, List.mem_singleton,
    decide_eq_true_eq]
  by_cases hjk : NwcId.client j = k
  · have hj := hk j hjk.symm
    rw [Linked] at hj
    simp only [hjk, ne_eq, not_true_eq_false, and_false, or_true, true_iff]
    rwa [hjk] at hj
  · simp [hjk]

theorem Counted.moveToDelete (hc : s.Counted E h) {k : NwcId}
    (hk : ∀ i, k = .client i → s.Linked i) : (s.moveToDelete k).Counted E h where
  balance := fun i hi => hc.balance i ((linked_moveToDelete hk i).mp hi)
  small := fun i hi => hc.small i ((linked_moveToDelete hk i).mp hi)
  linked := fun t ht i hti => (linked_moveToDelete hk i).mpr (hc.linked t ht i hti)
  kinds := hc.kinds
  known := fun i hi => hc.known i ((linked_moveToDelete hk i).mp hi)
  apart := by
    intro i hi hmem
    obtain ⟨hi, hne⟩ := List.mem_filter.mp hi
    rw [decide_eq_true_eq] at hne
    rcases List.mem_append.mp hmem with hmem | hmem
    · exact hc.apart i hi (List.mem_filter.mp hmem).1
    · exact hne (List.mem_singleton.mp hmem)
  nodup := by
    refine List.nodup_append.mpr ⟨hc.nodup.filter _, List.nodup_singleton k, ?_⟩
    rintro x hx y hy rfl
    rw [List.mem_singleton.mp hy] at hx
    simpa using (List.mem_filter.mp hx).2
  freed := by
    intro f hf i hfi
    rw [linked_moveToDelete hk]
    exact hc.freed f hf i hfi

/-- Neither a new accept nor its number is counted anywhere. -/
theorem Counted.acceptRequest (hc : s.Counted E h) (a : LoopAnswers) :
    (s.nwcsAcceptRequest a).Counted E h := by
  unfold nwcsAcceptRequest
  split
  · split
    · refine
        { balance := ?_, small := hc.small, linked := ?_, kinds := ?_, known := hc.known
          apart := hc.apart, nodup := hc.nodup, freed := hc.freed }
      · intro i hi
        show E ((s.client i).pendingOps - ((s.desk.post .acceptConn .accept).count _ : Nat) - _)
        rw [Desk.count_post]
        exact hc.balance i hi
      · intro t ht i hti
        rcases Desk.mem_post.mp ht with ht | rfl
        · exact hc.linked t ht i hti
        · cases hti
      · intro t ht
        rcases Desk.mem_post.mp ht with ht | rfl
        · exact hc.kinds t ht
        · simp
    · exact hc.refuse
  · exact hc

/-! ## Operations on clients -/

section
variable (hE : ∀ x, E x → 0 ≤ x)
include hE

/-- The count is not below what is outstanding. -/
theorem Counted.count_le (hc : s.Counted E h) {i : Nat} (hi : s.Linked i) :
    (s.desk.count (.client i) : Int) + h (.client i) ≤ (s.client i).pendingOps := by
  have := hE _ (hc.balance i hi)
  omega

/-- The counter goes up by one, without wrapping around. -/
theorem Counted.pending_post (hc : s.Counted E h) {i : Nat} (hi : s.Linked i)
    (hroom : (s.client i).pendingOps < 2147483647) (op : Oper) (j : Nat) :
    (((s.post (.client i) op).countUp (.client i)).client j).pendingOps
      = (s.client j).pendingOps + if j = i then 1 else 0 := by
  have hle := hc.count_le hE hi
  rw [countUp, modify_client_client]
  split
  · next hji =>
    rw [hji]
    exact int32_of_range (x := (s.client i).pendingOps + 1) (by omega) (by omega)
  · exact (Int.add_zero _).symm

/-- An operation that is posted is counted. -/
theorem Counted.post (hc : s.Counted E h) {i : Nat} (hi : s.Linked i)
    (hroom : (s.client i).pendingOps < 2147483647) {op : Oper} (hop : op ≠ .accept) :
    ((s.post (.client i) op).countUp (.client i)).Counted E h := by
  have hpending := hc.pending_post hE hi hroom op
  have hcount : ∀ j, ((s.post (.client i) op).countUp (.client i)).desk.count (.client j)
      = s.desk.count (.client j) + if j = i then 1 else 0 := by
    intro j
    rw [countUp, modify_desk]
    show (s.desk.post _ _).count _ = _
    rw [Desk.count_post]
    simp only [NwcId.client.injEq, eq_comm]
  refine
    { balance := ?_, small := ?_, linked := ?_, kinds := ?_, known := hc.known, apart := hc.apart
      nodup := hc.nodup, freed := hc.freed }
  · intro j hj
    have hbalance := hc.balance j hj
    rw [hpending, hcount]
    by_cases hji : j = i
    · simp only [hji, if_true] at hbalance ⊢
      rw [show (s.client i).pendingOps + 1 - ((s.desk.count (.client i) + 1 : Nat) : Int)
        = (s.client i).pendingOps - s.desk.count (.client i) by omega]
      exact hbalance
    · simp only [hji, if_false, Int.add_zero, Nat.add_zero]
      exact hbalance
  · intro j hj
    have hsmall := hc.small j hj
    rw [hpending]
    split
    · next hji =>
      rw [hji]
      omega
    · omega
  · intro t ht j htj
    rcases Desk.mem_post.mp ht with ht | rfl
    · exact hc.linked t ht j htj
    · cases htj
      exact hi
  · intro t ht
    rcases Desk.mem_post.mp ht with ht | rfl
    · exact hc.kinds t ht
    · simp [hop]

/-- `WSARecv` has posted the read, or has refused it. -/
theorem Counted.readRequest (hc : s.Counted E h) {i : Nat} (hi : s.Linked i) {recv : RecvAnswer}
    (hrecv : recv ≠ .done 0)
    (hroom : recv ≠ .refused → (s.client i).pendingOps < 2147483647) :
    (s.nwcsReadRequest (.client i) recv).2.Counted E h := by
  have hop : Oper.read ≠ .accept := by decide
  unfold nwcsReadRequest
  split
  · exact hc.refuse
  · exact absurd rfl hrecv
  · exact hc.post hE hi (hroom (by simp)) hop
  · exact hc.post hE hi (hroom (by simp)) hop

/-- The count does not leave the range of `int`. -/
def HasRoom (c : NwcConnection) (a : LoopAnswers) : Prop :=
  a.send = true → c.pendingOps < 2147483647 ∧
    (a.recv ≠ .refused → c.pendingOps < 2147483646)

theorem Counted.reply (hc : s.Counted E h) {i : Nat} (hi : s.Linked i) {a : LoopAnswers}
    (hrecv : a.send = true → a.recv ≠ .done 0) (hroom : HasRoom (s.client i) a) :
    (s.reply (.client i) a).Counted E h := by
  unfold NwcsIocp.reply nwcsWriteRequest
  by_cases hsend : a.send = true
  · obtain ⟨hone, htwo⟩ := hroom hsend
    have hwrite := hc.post hE hi hone (show Oper.write ≠ .accept by decide)
    have hpending := hc.pending_post hE hi hone .write i
    rw [if_pos rfl] at hpending
    have hi' : ((s.post (.client i) .write).countUp (.client i)).Linked i := hi
    have hread := hwrite.readRequest hE hi' (hrecv hsend) (fun hne => by
      have := htwo hne
      omega)
    have hlinked : (((s.post (.client i) .write).countUp (.client i)).nwcsReadRequest (.client i)
        a.recv).2.Linked i := by
      unfold nwcsReadRequest
      split
      · exact hi
      · exact hi
      · exact hi
      · exact hi
    rw [if_pos hsend]
    dsimp only
    split
    · next u heq =>
      rw [heq] at hread
      exact hread
    · next u heq =>
      rw [heq] at hread hlinked
      refine hread.moveToDelete ?_
      rintro j hj
      cases hj
      exact hlinked
  · rw [if_neg hsend]
    refine hc.refuse.moveToDelete ?_
    rintro j hj
    cases hj
    exact hi

end

/-! ## A new client -/

/-- The number of a new client is not in use. -/
theorem Counted.not_linked (hc : s.Counted E h) : ¬s.Linked s.clients := fun hi =>
  Nat.lt_irrefl _ (hc.known _ hi)

theorem Counted.newClient (hc : s.Counted E h) (mem : NwcConnection) :
    (s.newClient mem).Counted E h := by
  have hold : ∀ i, s.Linked i → (s.newClient mem).client i = s.client i := by
    intro i hi
    have hne : i ≠ s.clients := Nat.ne_of_lt (hc.known i hi)
    simp [NwcsIocp.newClient, hne]
  refine
    { balance := ?_, small := ?_, linked := hc.linked, kinds := hc.kinds, known := ?_
      apart := hc.apart, nodup := hc.nodup, freed := ?_ }
  · intro i hi
    rw [hold i hi]
    exact hc.balance i hi
  · intro i hi
    rw [hold i hi]
    exact hc.small i hi
  · exact fun i hi => Nat.lt_succ_of_lt (hc.known i hi)
  · intro f hf i hfi
    exact (hc.freed f hf i hfi).imp_left Nat.lt_succ_of_lt

/-- A client that is in no list is freed. -/
theorem Counted.freeNwcConn (hc : s.Counted E h) {i : Nat} (hi : i < s.clients)
    (hnot : ¬s.Linked i) : (s.freeNwcConn (.client i)).Counted E h := by
  have hmod := hc.modify (.client i) (f := fun c => { c with opened := false }) fun _ => rfl
  refine
    { balance := hmod.balance, small := hmod.small, linked := hmod.linked, kinds := hmod.kinds
      known := hmod.known, apart := hmod.apart, nodup := hmod.nodup, freed := ?_ }
  intro f hf j hfj
  rcases List.mem_append.mp hf with hf | hf
  · exact hc.freed f hf j hfj
  · rw [List.mem_singleton.mp hf] at hfj
    cases hfj
    exact ⟨hi, hnot⟩

/-- A new client whose first read is posted, in the list of clients. -/
def join (s : NwcsIocp) (mem : NwcConnection) : NwcsIocp :=
  { ((s.newClient mem).post (.client s.clients) .read).countUp (.client s.clients) with
    clientConnHdr := s.clientConnHdr ++ [s.clients] }

/-- The new client apart, all is as it was. -/
theorem join_pendingOps {mem : NwcConnection} (hlow : 0 ≤ mem.pendingOps)
    (hroom : mem.pendingOps < 2147483647) (j : Nat) : ((s.join mem).client j).pendingOps =
      if j = s.clients then mem.pendingOps + 1 else (s.client j).pendingOps := by
  show ((((s.newClient mem).post (.client s.clients) .read).countUp
    (.client s.clients)).client j).pendingOps = _
  rw [countUp, modify_client_client]
  split
  · have hmem : ((s.newClient mem).client s.clients).pendingOps = mem.pendingOps := by
      simp [NwcsIocp.newClient, allocNwcConnArg0]
    show int32 (((s.newClient mem).client s.clients).pendingOps + 1) = _
    rw [hmem]
    exact int32_of_range (by omega) (by omega)
  · next hne =>
    show ((s.newClient mem).client j).pendingOps = _
    simp [NwcsIocp.newClient, hne]

theorem join_count (mem : NwcConnection) (j : Nat) : (s.join mem).desk.count (.client j) =
    s.desk.count (.client j) + if j = s.clients then 1 else 0 := by
  show (((s.newClient mem).post (.client s.clients) .read).countUp
    (.client s.clients)).desk.count (.client j) = _
  rw [countUp, modify_desk]
  show (s.desk.post _ _).count _ = _
  rw [Desk.count_post]
  simp only [NwcId.client.injEq, eq_comm]

/-- It is linked, and so are those that were. -/
theorem linked_join {mem : NwcConnection} {j : Nat} (hj : (s.join mem).Linked j) :
    j = s.clients ∨ (j ≠ s.clients ∧ s.Linked j) := by
  by_cases hjn : j = s.clients
  · exact Or.inl hjn
  · refine Or.inr ⟨hjn, hj.imp_left fun hj => ?_⟩
    rcases List.mem_append.mp hj with hj | hj
    · exact hj
    · exact absurd (List.mem_singleton.mp hj) hjn

/-- A client whose first read is posted comes into the list. -/
theorem Counted.join (hc : s.Counted E h) (hE : ∀ x, E x → 0 ≤ x) (hh : h (.client s.clients) = 0)
    {mem : NwcConnection} (hmem : E mem.pendingOps) (hroom : mem.pendingOps < 2147483647) :
    (s.join mem).Counted E h := by
  have hnot := hc.not_linked
  have hlow := hE _ hmem
  have hnone : s.desk.count (.client s.clients) = 0 :=
    Desk.count_eq_zero.mpr fun t ht heq => hnot (hc.linked t ht _ heq)
  constructor
  case balance =>
    intro j hj
    rw [join_pendingOps hlow hroom, join_count]
    rcases linked_join hj with rfl | ⟨hne, hj⟩
    · rw [if_pos rfl, if_pos rfl, hnone, hh]
      have hexcess : mem.pendingOps + 1 - ((0 + 1 : Nat) : Int) - ((0 : Nat) : Int) =
          mem.pendingOps := by omega
      rw [hexcess]
      exact hmem
    · rw [if_neg hne, if_neg hne]
      exact hc.balance j hj
  case small =>
    intro j hj
    rw [join_pendingOps hlow hroom]
    rcases linked_join hj with rfl | ⟨hne, hj⟩
    · rw [if_pos rfl]
      omega
    · rw [if_neg hne]
      exact hc.small j hj
  case linked =>
    intro t ht j htj
    rcases Desk.mem_post.mp ht with ht | rfl
    · exact (hc.linked t ht j htj).imp_left fun hj => List.mem_append_left _ hj
    · cases htj
      exact Or.inl (List.mem_append_right _ List.mem_cons_self)
  case kinds =>
    intro t ht
    rcases Desk.mem_post.mp ht with ht | rfl
    · exact hc.kinds t ht
    · simp
  case known =>
    intro j hj
    rcases linked_join hj with rfl | ⟨-, hj⟩
    · exact Nat.lt_succ_self _
    · exact Nat.lt_succ_of_lt (hc.known j hj)
  case apart =>
    intro j hj
    rcases List.mem_append.mp hj with hj | hj
    · exact hc.apart j hj
    · rw [List.mem_singleton.mp hj]
      exact fun hmem => hnot (Or.inr hmem)
  case nodup => exact hc.nodup
  case freed =>
    intro f hf j hfj
    obtain ⟨hlt, hnotj⟩ := hc.freed f hf j hfj
    refine ⟨Nat.lt_succ_of_lt hlt, fun hj => ?_⟩
    rcases linked_join hj with rfl | ⟨-, hj⟩
    · exact Nat.lt_irrefl _ hlt
    · exact hnotj hj

theorem Counted.connect (hc : s.Counted E h) (hE : ∀ x, E x → 0 ≤ x)
    (hh : h (.client s.clients) = 0) {a : LoopAnswers}
    (hrecv : a.associates = true → a.recv ≠ .done 0)
    (hmem : a.associates = true → a.recv ≠ .refused →
      E a.mem.pendingOps ∧ a.mem.pendingOps < 2147483647) : (s.connect a).Counted E h := by
  have hnew := hc.newClient a.mem
  have hlt : s.clients < (s.newClient a.mem).clients := Nat.lt_succ_self _
  unfold NwcsIocp.connect nwcsReadRequest
  dsimp only
  split
  · next hassociates =>
    cases ha : a.recv with
    | refused => exact hnew.refuse.freeNwcConn hlt hc.not_linked
    | pending =>
      obtain ⟨hm, hroom⟩ := hmem hassociates (by simp [ha])
      exact hc.join hE hh hm hroom
    | done n =>
      cases n with
      | zero => exact absurd ha (hrecv hassociates)
      | succ n =>
        obtain ⟨hm, hroom⟩ := hmem hassociates (by simp [ha])
        exact hc.join hE hh hm hroom
  · exact hnew.freeNwcConn hlt hc.not_linked

/-! ## One iteration -/

/-- The operation of `t` has been dequeued and not been counted off. -/
def inHand (t : Ticket NwcId Oper) (k : NwcId) : Nat := if t.owner = k then 1 else 0

theorem Counted.settle (hc : s.Counted E fun _ => 0) {t : Ticket NwcId Oper}
    (ht : t ∈ s.desk.waiting) :
    ({ s with desk := s.desk.settle t } : NwcsIocp).Counted E (inHand t) := by
  refine
    { balance := ?_, small := hc.small, known := hc.known, apart := hc.apart, nodup := hc.nodup
      linked := fun u hu => hc.linked u (Desk.mem_settle hu)
      kinds := fun u hu => hc.kinds u (Desk.mem_settle hu)
      freed := hc.freed }
  intro i hi
  have hcount : (s.desk.settle t).count (.client i) + inHand t (.client i)
      = s.desk.count (.client i) := Desk.count_settle ht (.client i)
  have hbalance := hc.balance i hi
  show E ((s.client i).pendingOps - (s.desk.settle t).count (.client i) - inHand t (.client i))
  rw [show (s.client i).pendingOps - (s.desk.settle t).count (.client i) - inHand t (.client i)
    = (s.client i).pendingOps - s.desk.count (.client i) - ((0 : Nat) : Int) by omega]
  exact hbalance

/-- The counter of the connection that it was for goes down. -/
theorem Counted.countDown_pendingOps {u : Ticket NwcId Oper} (hc : s.Counted E (inHand u))
    (hE : ∀ x, E x → 0 ≤ x) {i : Nat} (hi : s.Linked i) :
    ((s.countDown u.owner).client i).pendingOps =
      (s.client i).pendingOps - inHand u (.client i) := by
  have hle := hc.count_le hE hi
  have hsmall := hc.small i hi
  cases hk : u.owner with
  | acceptConn =>
    rw [inHand, hk, if_neg (by simp)]
    exact (Int.sub_zero _).symm
  | client j =>
    rw [NwcsIocp.countDown, modify_client_client]
    by_cases hij : i = j
    · rw [if_pos hij]
      have hhand : inHand u (.client i) = 1 := by rw [inHand, hk, hij, if_pos rfl]
      rw [hhand] at hle ⊢
      rw [← hij]
      exact int32_of_range (x := (s.client i).pendingOps - 1) (by omega) (by omega)
    · rw [if_neg hij]
      have hhand : inHand u (.client i) = 0 := by
        rw [inHand, hk, if_neg]
        rintro heq
        cases heq
        exact hij rfl
      rw [hhand]
      exact (Int.sub_zero _).symm

/-- The operation in hand is counted off. -/
theorem Counted.countDown {u : Ticket NwcId Oper} (hc : s.Counted E (inHand u))
    (hE : ∀ x, E x → 0 ≤ x) : (s.countDown u.owner).Counted E fun _ => 0 := by
  have hlinked : ∀ i, (s.countDown u.owner).Linked i ↔ s.Linked i := by
    intro i
    simp [Linked, NwcsIocp.countDown]
  have hdesk : (s.countDown u.owner).desk = s.desk := by simp [NwcsIocp.countDown]
  constructor
  case balance =>
    intro i hi
    rw [hlinked] at hi
    rw [hc.countDown_pendingOps hE hi, hdesk]
    have hbalance := hc.balance i hi
    have hswap : (s.client i).pendingOps - inHand u (.client i) - s.desk.count (.client i) -
        ((0 : Nat) : Int) =
          (s.client i).pendingOps - s.desk.count (.client i) - inHand u (.client i) := by
      omega
    rw [hswap]
    exact hbalance
  case small =>
    intro i hi
    rw [hlinked] at hi
    rw [hc.countDown_pendingOps hE hi]
    have hsmall := hc.small i hi
    omega
  case linked =>
    intro t ht i hti
    rw [hdesk] at ht
    exact (hlinked i).mpr (hc.linked t ht i hti)
  case kinds =>
    rw [hdesk]
    exact hc.kinds
  case known =>
    intro i hi
    rw [hlinked] at hi
    simpa [NwcsIocp.countDown] using hc.known i hi
  case apart => simpa [NwcsIocp.countDown] using hc.apart
  case nodup => simpa [NwcsIocp.countDown] using hc.nodup
  case freed =>
    intro f hf i hfi
    have hf' : f ∈ s.freedConns := by simpa [NwcsIocp.countDown] using hf
    rw [hlinked]
    simpa [NwcsIocp.countDown] using hc.freed f hf' i hfi

/-- `free_nwc_conn` for one connection after the other. -/
structure Frees (ks : List NwcId) (s t : NwcsIocp) : Prop where
  pending : ∀ i, (t.client i).pendingOps = (s.client i).pendingOps
  desk : t.desk = s.desk
  clients : t.clients = s.clients
  hdr : t.clientConnHdr = s.clientConnHdr
  delete : t.deleteClientConnHdr = s.deleteClientConnHdr
  freed : t.freedConns
    = s.freedConns ++ ks.map fun k => { nwc := k, waiting := s.desk.count k }
  freedOps : t.freedOps = s.freedOps
  late : t.latePosts = s.latePosts

theorem freeNwcConn_pending (s : NwcsIocp) (k : NwcId) (i : Nat) :
    ((s.freeNwcConn k).client i).pendingOps = (s.client i).pendingOps := by
  cases k with
  | acceptConn => rfl
  | client j =>
    show ((s.modify (.client j) fun c => { c with opened := false }).client i).pendingOps = _
    rw [modify_client_client]
    split
    · next hij => rw [hij]
    · rfl

theorem foldl_frees (ks : List NwcId) (s : NwcsIocp) :
    Frees ks s (ks.foldl NwcsIocp.freeNwcConn s) := by
  induction ks generalizing s with
  | nil =>
    exact
      { pending := fun _ => rfl, desk := rfl, clients := rfl, hdr := rfl, delete := rfl
        freed := (List.append_nil _).symm, freedOps := rfl, late := rfl }
  | cons k ks ih =>
    have hrest := ih (s.freeNwcConn k)
    have hdesk : (s.freeNwcConn k).desk = s.desk := by simp [NwcsIocp.freeNwcConn]
    exact
      { pending := fun i => (hrest.pending i).trans (freeNwcConn_pending s k i)
        desk := hrest.desk.trans hdesk
        clients := hrest.clients.trans (by simp [NwcsIocp.freeNwcConn])
        hdr := hrest.hdr.trans (by simp [NwcsIocp.freeNwcConn])
        delete := hrest.delete.trans (by simp [NwcsIocp.freeNwcConn])
        freed := by
          rw [List.foldl_cons, hrest.freed, hdesk]
          simp [NwcsIocp.freeNwcConn]
        freedOps := hrest.freedOps.trans (by simp [NwcsIocp.freeNwcConn])
        late := hrest.late.trans (by simp [NwcsIocp.freeNwcConn]) }

/-- The end of the loop frees what is unused in the delete list. -/
theorem sweep_frees (s : NwcsIocp) : Frees (s.deleteClientConnHdr.filter s.unused)
    { s with deleteClientConnHdr := s.deleteClientConnHdr.filter fun k => !s.unused k }
    s.sweep :=
  foldl_frees _ _

/-- What is freed has nothing outstanding. -/
theorem Counted.unused_count (hc : s.Counted E fun _ => 0) (hE : ∀ x, E x → 0 ≤ x) {i : Nat}
    (hi : s.Linked i) (hunused : s.unused (.client i) = true) : s.desk.count (.client i) = 0 := by
  have hle := hc.count_le hE hi
  have hpending : (s.client i).pendingOps ≤ 0 := of_decide_eq_true hunused
  omega

theorem Counted.sweep (hc : s.Counted E fun _ => 0) (hE : ∀ x, E x → 0 ≤ x) :
    s.sweep.Counted E fun _ => 0 := by
  have hs := sweep_frees s
  -- what stays in the lists was there, and what leaves them is unused
  have hlinked : ∀ i, s.sweep.Linked i ↔
      s.Linked i ∧ (i ∈ s.clientConnHdr ∨ s.unused (.client i) = false) := by
    intro i
    simp only [Linked, hs.hdr, hs.delete, List.mem_filter, Bool.not_eq_true']
    constructor
    · rintro (hi | ⟨hi, hunused⟩)
      · exact ⟨Or.inl hi, Or.inl hi⟩
      · exact ⟨Or.inr hi, Or.inr hunused⟩
    · rintro ⟨hi | hi, hi' | hunused⟩
      · exact Or.inl hi
      · exact Or.inl hi
      · exact Or.inl hi'
      · exact Or.inr ⟨hi, hunused⟩
  constructor
  · intro i hi
    rw [hs.pending, hs.desk]
    exact hc.balance i ((hlinked i).mp hi).1
  · intro i hi
    rw [hs.pending]
    exact hc.small i ((hlinked i).mp hi).1
  · intro t ht i hti
    rw [hs.desk] at ht
    have hi := hc.linked t ht i hti
    refine (hlinked i).mpr ⟨hi, Or.inr ?_⟩
    by_contra hunused
    rw [Bool.not_eq_false] at hunused
    exact Desk.count_eq_zero.mp (hc.unused_count hE hi hunused) t ht hti
  · rw [hs.desk]
    exact hc.kinds
  · intro i hi
    rw [hs.clients]
    exact hc.known i ((hlinked i).mp hi).1
  · intro i hi hmem
    rw [hs.hdr] at hi
    rw [hs.delete] at hmem
    exact hc.apart i hi (List.mem_filter.mp hmem).1
  · rw [hs.delete]
    exact hc.nodup.filter _
  · intro f hf i hfi
    rw [hs.clients]
    rw [hs.freed, List.mem_append] at hf
    rcases hf with hf | hf
    · obtain ⟨hlt, hnot⟩ := hc.freed f hf i hfi
      exact ⟨hlt, fun hi => hnot ((hlinked i).mp hi).1⟩
    · obtain ⟨k, hk, rfl⟩ := List.mem_map.mp hf
      obtain ⟨hmem, hunused⟩ := List.mem_filter.mp hk
      have hki : k = .client i := hfi
      rw [hki] at hmem hunused
      refine ⟨hc.known i (Or.inr hmem), fun hi => ?_⟩
      rcases ((hlinked i).mp hi).2 with hhdr | hused
      · exact hc.apart i hhdr hmem
      · rw [hunused] at hused
        cases hused

/-- `WSARecv` is called. -/
def receives (t : Ticket NwcId Oper) (a : LoopAnswers) : Bool :=
  match t.op with
  | .accept => a.associates
  | .read => a.send
  | .write => false

/--
The packet of a successful operation keeps the count: `WSARecv` does not return at once with no
bytes, the memory of a new client is as `E` has it, and the counter stays in the range of `int`.
-/
structure Fits (E : Int → Prop) (s : NwcsIocp) (t : Ticket NwcId Oper) (a : LoopAnswers) :
    Prop where
  received : receives t a = true → a.recv ≠ .done 0
  memory : t.op = .accept → a.associates = true → a.recv ≠ .refused →
    E a.mem.pendingOps ∧ a.mem.pendingOps < 2147483647
  room : t.op = .read → HasRoom (s.conn t.owner) a

instance (c : NwcConnection) (a : LoopAnswers) : Decidable (HasRoom c a) :=
  inferInstanceAs (Decidable (_ → _))

instance [DecidablePred E] (s : NwcsIocp) (t : Ticket NwcId Oper) (a : LoopAnswers) :
    Decidable (Fits E s t a) :=
  decidable_of_iff
    ((receives t a = true → a.recv ≠ .done 0) ∧
      (t.op = .accept → a.associates = true → a.recv ≠ .refused →
        E a.mem.pendingOps ∧ a.mem.pendingOps < 2147483647) ∧
      (t.op = .read → HasRoom (s.conn t.owner) a))
    ⟨fun ⟨h₁, h₂, h₃⟩ => ⟨h₁, h₂, h₃⟩, fun ⟨h₁, h₂, h₃⟩ => ⟨h₁, h₂, h₃⟩⟩

/-- Behind `nwcs_iocp_process_message`. -/
theorem Counted.processed (hc : s.Counted E fun _ => 0) (hE : ∀ x, E x → 0 ≤ x)
    {u : Ticket NwcId Oper} (hu : u ∈ s.desk.waiting) (rbytes : Nat) {a : LoopAnswers}
    (hfits : Fits E s u a) :
    ((({ s with desk := s.desk.settle u } : NwcsIocp).modify u.owner
      (fun c => { c with rbytes := rbytes })).nwcsIocpProcessMessage u.owner u.op a).Counted E
        (inHand u) := by
  have hsettle := (hc.settle hu).modify u.owner (f := fun c => { c with rbytes := rbytes })
    fun _ => rfl
  have hreceived := hfits.received
  cases hop : u.op with
  | accept =>
    rw [receives, hop] at hreceived
    have howner := (hc.kinds u hu).mp hop
    have hnone : ∀ i, inHand u (.client i) = 0 := by
      intro i
      rw [inHand, howner, if_neg (by simp)]
    exact (hsettle.acceptRequest a).connect hE (hnone _) hreceived (hfits.memory hop)
  | read =>
    rw [receives, hop] at hreceived
    cases howner : u.owner with
    | acceptConn =>
      rw [(hc.kinds u hu).mpr howner] at hop
      cases hop
    | client i =>
      rw [howner] at hsettle
      have hroom := hfits.room hop
      rw [howner] at hroom
      refine hsettle.reply hE (hc.linked u hu i howner) hreceived ?_
      rw [modify_client_client, if_pos rfl]
      exact hroom
  | write => exact hsettle

theorem Counted.completed (hc : s.Counted E fun _ => 0) (hE : ∀ x, E x → 0 ≤ x)
    {u : Ticket NwcId Oper} (hu : u ∈ s.desk.waiting) (rbytes : Nat) {a : LoopAnswers}
    (hfits : Fits E s u a) : (s.completed u rbytes a).Counted E fun _ => 0 :=
  (((hc.processed hE hu rbytes hfits).freeNwcIoOp u.id).countDown hE).sweep hE

/-- The operation in hand is not counted off, and the excess is one more. -/
theorem Counted.notCountedOff {u : Ticket NwcId Oper} (hc : s.Counted E (inHand u))
    (hmore : u.owner ≠ .acceptConn → ∀ x, E x → E (x + 1)) : s.Counted E fun _ => 0 := by
  refine { hc with balance := ?_ }
  intro i hi
  have hbalance := hc.balance i hi
  by_cases howner : u.owner = .client i
  · rw [inHand, if_pos howner] at hbalance
    have hmore' := hmore (by simp [howner]) _ hbalance
    rw [show (s.client i).pendingOps - s.desk.count (.client i) - ((1 : Nat) : Int) + 1
      = (s.client i).pendingOps - s.desk.count (.client i) - ((0 : Nat) : Int) by omega] at hmore'
    exact hmore'
  · rw [inHand, if_neg howner] at hbalance
    exact hbalance

/-- A failed operation is not counted off. -/
theorem Counted.failed (hc : s.Counted E fun _ => 0) {u : Ticket NwcId Oper}
    (hu : u ∈ s.desk.waiting) (hfail : u.op ≠ .accept → ∀ x, E x → E (x + 1)) :
    (s.failed u).Counted E fun _ => 0 := by
  have hsettle := (hc.settle hu).notCountedOff fun howner =>
    hfail fun hop => howner ((hc.kinds u hu).mp hop)
  exact (hsettle.freeNwcIoOp u.id).moveToDelete (hc.linked u hu)

theorem Counted.step (hc : s.Counted E fun _ => 0) (hE : ∀ x, E x → 0 ≤ x) {u : Ticket NwcId Oper}
    {ok : Bool} {rbytes : Nat} {a : LoopAnswers}
    (hfail : ok = false → u.op ≠ .accept → ∀ x, E x → E (x + 1))
    (hfits : ok = true → Fits E s u a) (h : s.step (.completion u ok rbytes a) = some t) :
    t.Counted E fun _ => 0 := by
  simp only [NwcsIocp.step] at h
  split at h
  · next hu =>
    cases h
    split
    · next hok => exact hc.completed hE hu.1 rbytes (hfits hok)
    · next hok => exact hc.failed hu.1 (hfail (by simpa using hok))
  · cases h

theorem open_counted (a : LoopAnswers) : (nwcsIocpOpen a).Counted E fun _ => 0 := by
  refine Counted.acceptRequest ?_ a
  have hnone : ∀ i, ¬listening.Linked i := by simp [Linked, listening]
  exact
    { balance := fun i hi => absurd hi (hnone i)
      small := fun i hi => absurd hi (hnone i)
      linked := fun _ ht => absurd ht List.not_mem_nil
      kinds := fun _ ht => absurd ht List.not_mem_nil
      known := fun i hi => absurd hi (hnone i)
      apart := fun _ hi => absurd hi List.not_mem_nil
      nodup := List.nodup_nil
      freed := fun _ hf => absurd hf List.not_mem_nil }

/-! ## The exact count -/

/-- `pending_ops` is the number of operations that are outstanding. -/
def CountsExactly (s : NwcsIocp) : Prop :=
  ∀ i, s.Linked i → (s.client i).pendingOps = s.desk.count (.client i)

/-- No operation of a client fails, and the others keep the count as it is. -/
def KeepsCount (s : NwcsIocp) : Event → Prop
  | .completion t ok _ a => (ok = false → t.op = .accept) ∧ (ok = true → Fits (· = 0) s t a)
  | .nothing => True

/--
**The count is exact while nothing fails.**

In every state between iterations of a run, `pending_ops` of a connection in one of the lists is the
number of its operations that have not been dequeued, if no read or write fails, `WSARecv` does not
return at once with no bytes, new memory has 0 in the place of the counter, and no connection has
2^31 operations.
-/
theorem countsExactly (a : LoopAnswers) (events : List Event)
    (hkeeps : Along step (nwcsIocpOpen a) events KeepsCount) (t : NwcsIocp)
    (hvisit : Visits step (nwcsIocpOpen a) events t) : t.CountsExactly := by
  have hc : t.Counted (· = 0) fun _ => 0 := by
    refine visits_invariant (fun s e t hs he hstep => ?_) (open_counted a) hkeeps hvisit
    cases e with
    | completion u ok rbytes a =>
      refine hs.step (by omega) (fun hok hop => absurd (he.1 hok) hop) he.2 hstep
    | nothing =>
      cases hstep
      exact hs
  intro i hi
  have hbalance := hc.balance i hi
  omega

instance (s : NwcsIocp) : DecidablePred s.KeepsCount
  | .completion t ok _ a =>
    inferInstanceAs (Decidable
      ((ok = false → t.op = .accept) ∧ (ok = true → Fits (· = 0) s t a)))
  | .nothing => .isTrue trivial

/-- A client connects and sends something. -/
theorem clientSends_countsExactly : ∃ s,
    replay step (nwcsIocpOpen allWell) [clientConnects, .completion firstRead true 4 allWell]
      = some s ∧ s.CountsExactly := by
  obtain ⟨s, hs⟩ := Option.isSome_iff_exists.mp
    (show (replay step (nwcsIocpOpen allWell)
      [clientConnects, .completion firstRead true 4 allWell]).isSome by decide +kernel)
  exact ⟨s, hs, countsExactly allWell _ (by decide +kernel) s ⟨_, List.prefix_rfl, hs⟩⟩

/-- The read of a client fails, and stays counted. -/
theorem readFails_notCountsExactly : ∃ s,
    replay step (nwcsIocpOpen allWell) [clientConnects, .completion firstRead false 0 allWell]
      = some s ∧ ¬s.CountsExactly := by
  obtain ⟨s, hs, hmem, hpending, hcount⟩ : ∃ s ∈ replay step (nwcsIocpOpen allWell)
      [clientConnects, .completion firstRead false 0 allWell],
      NwcId.client 0 ∈ s.deleteClientConnHdr ∧ (s.client 0).pendingOps = 1 ∧
        s.desk.count (.client 0) = 0 := by
    decide +kernel
  refine ⟨s, hs, fun hexact => ?_⟩
  have heq := hexact 0 (Or.inr hmem)
  rw [hpending, hcount] at heq
  cases heq

end NwcsIocp

end Nwchecker.Iocp
