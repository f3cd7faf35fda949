import Mathlib.Data.Finset.Lattice.Lemmas
import Nwchecker.Qos.Ledger

/-!
# Who frees a package

`nwc_qos_create_package` allocates an entry and a message and puts them into `sent_queue`. From
then on the queue owns them: who takes a package out of the queue has to free it, and when the
connection goes the queue goes with it.

A package leaves by an ack, by the statistics, or with its connection. `livesExact_iff` says in
which runs the allocated packages are those in the queue, and none when the connection is closed:
only the ack frees what it takes out.
-/

namespace Nwchecker

open Doubles Machine Ring

/-! ## The life of a connection -/

/--
`free_nwc_conn`: `free(nwc)`. The block of the connection goes, with the head of `sent_queue` in
it, and of the packages none.
-/
def QosMemory.freeNwcConn (m : QosMemory) : QosMemory := m

inductive LifeEvent where
  | qos (e : QosEvent)
  /-- `nwc_connection_close` -/
  | close

structure ConnLife where
  ledger : QosLedger
  closed : Bool

namespace ConnLife

def init (sendBandwidth : UInt32) (links : Links PkgNode) (clock : Nat) : ConnLife where
  ledger := .init sendBandwidth links clock
  closed := false

/-- Nothing uses a connection that is closed. -/
def step (round : ℚ → ℚ) (c : ConnLife) (e : LifeEvent) : Option ConnLife :=
  if c.closed then none
  else
    match e with
    | .qos e =>
      match c.ledger.step round e with
      | some l => some { c with ledger := l }
      | none => none
    | .close => some { ledger := { c.ledger with mem := c.ledger.mem.freeNwcConn }, closed := true }

variable {round : ℚ → ℚ}

theorem step_closed {c : ConnLife} {e : LifeEvent} (h : c.closed = true) :
    c.step round e = none := by
  unfold step
  rw [if_pos h]

theorem step_qos {c c' : ConnLife} {e : QosEvent} (h : c.step round (.qos e) = some c') :
    c.closed = false ∧ ∃ l, c.ledger.step round e = some l ∧ c' = { c with ledger := l } := by
  unfold step at h
  cases hc : c.closed with
  | true =>
    rw [if_pos hc] at h
    cases h
  | false =>
    rw [if_neg (by rw [hc]; exact Bool.false_ne_true)] at h
    cases hl : c.ledger.step round e with
    | none => simp [hl] at h
    | some l =>
      simp only [hl, Option.some.injEq] at h
      exact ⟨rfl, l, rfl, by rw [← h, hc]⟩

theorem step_close {c c' : ConnLife} (h : c.step round .close = some c') :
    c.closed = false ∧
      c' = { ledger := { c.ledger with mem := c.ledger.mem.freeNwcConn }, closed := true } := by
  unfold step at h
  cases hc : c.closed with
  | true =>
    rw [if_pos hc] at h
    cases h
  | false =>
    rw [if_neg (by rw [hc]; exact Bool.false_ne_true)] at h
    exact ⟨rfl, by simpa using h.symm⟩

end ConnLife

/-! ## Ownership -/

/-- The packages `q` are allocated and nothing else is; every other one has been freed once. -/
structure QosMemory.Owns (m : QosMemory) (q : List Nat) : Prop where
  entries : m.entries = q.toFinset
  messages : m.messages = q.toFinset
  freed : (q ++ m.freed).Perm (List.range m.created)

/-- While the connection is open its queue owns the packages, and afterwards there are none. -/
def ConnLife.LivesExact (c : ConnLife) : Prop :=
  if c.closed then c.ledger.mem.Owns [] else ∃ q, c.ledger.mem.Queue q ∧ c.ledger.mem.Owns q

/--
The events after which that stays so: the statistics find no package overdue, and the queue is
empty when the connection is closed.
-/
def ConnLife.NoneLeft (c : ConnLife) : LifeEvent → Prop
  | .qos (.stat advance) => ∀ q, c.ledger.mem.Queue q →
      c.ledger.mem.lostAt (UInt32.ofNat (c.ledger.clock + advance)) q = []
  | .qos _ => True
  | .close => c.ledger.mem.Queue []

variable {m : QosMemory} {q : List Nat}

/-- A new package in a set of allocated ones. -/
theorem toFinset_concat (q : List Nat) (k : Nat) : (q ++ [k]).toFinset = insert k q.toFinset := by
  rw [List.toFinset_append, List.toFinset_cons, List.toFinset_nil, Finset.insert_empty,
    Finset.union_comm, Finset.insert_eq]

/-- A package taken out of a set of allocated ones. -/
theorem toFinset_erase_middle {pre post : List Nat} {k : Nat} (h : (pre ++ k :: post).Nodup) :
    (pre ++ k :: post).toFinset.erase k = (pre ++ post).toFinset := by
  have hk : k ∉ pre ++ post := (List.nodup_cons.mp (List.nodup_middle.mp h)).1
  ext x
  rw [Finset.mem_erase, List.mem_toFinset, List.mem_toFinset, List.mem_append, List.mem_cons,
    or_left_comm, ← List.mem_append]
  constructor
  · rintro ⟨hne, rfl | hx⟩
    · exact absurd rfl hne
    · exact hx
  · intro hx
    exact ⟨fun heq => hk (heq ▸ hx), Or.inr hx⟩

theorem QosMemory.Owns.create (h : m.Owns q) (pkglen now : UInt32)
    (block : Block (qosHdrLen + pkglen.toNat)) :
    ((m.createPackage pkglen block).1.stamp (m.createPackage pkglen block).2 now).Owns
      (q ++ [m.created]) where
  entries := by
    rw [toFinset_concat, ← h.entries]
    rfl
  messages := by
    rw [toFinset_concat, ← h.messages]
    rfl
  freed := by
    show (q ++ [m.created] ++ m.freed).Perm (List.range (m.created + 1))
    rw [List.range_succ]
    refine List.Perm.trans ?_ (h.freed.append_right [m.created])
    simp only [List.append_assoc]
    exact List.Perm.append_left q List.perm_append_comm

/-- An ack frees the package that it takes out. -/
theorem QosMemory.Owns.del {pre post : List Nat} {k : Nat} (h : m.Owns (pre ++ k :: post))
    (hnodup : (pre ++ k :: post).Nodup) (rtt jitter : ℚ) (links : Links PkgNode) :
    ({ m with
        rtt := rtt
        jitter := jitter
        links := links }.free k).Owns (pre ++ post) where
  entries := by
    show m.entries.erase k = _
    rw [h.entries, toFinset_erase_middle hnodup]
  messages := by
    show m.messages.erase k = _
    rw [h.messages, toFinset_erase_middle hnodup]
  freed := by
    show (pre ++ post ++ (m.freed ++ [k])).Perm (List.range m.created)
    refine List.Perm.trans ?_ h.freed
    simp only [List.append_assoc, List.cons_append]
    refine List.Perm.append_left pre ?_
    rw [← List.append_assoc]
    exact List.perm_append_comm

/-- The statistics free nothing. -/
theorem QosMemory.SameStore.owns {m' : QosMemory} (h : m.SameStore m') :
    m'.Owns q ↔ m.Owns q := by
  constructor
  · rintro ⟨h₁, h₂, h₃⟩
    exact ⟨h.entries ▸ h₁, h.messages ▸ h₂, by rw [← h.freed, ← h.created]; exact h₃⟩
  · rintro ⟨h₁, h₂, h₃⟩
    exact ⟨h.entries.trans h₁, h.messages.trans h₂, by rw [h.freed, h.created]; exact h₃⟩

/-- Only one set of packages is owned. -/
theorem QosMemory.Owns.mem_iff {q' : List Nat} (h : m.Owns q) (h' : m.Owns q') (k : Nat) :
    k ∈ q ↔ k ∈ q' := by
  rw [← List.mem_toFinset, ← h.entries, h'.entries, List.mem_toFinset]

/-! ## Runs -/

namespace ConnLife

/-- The books are in order and the queue owns its packages. -/
structure Held (c : ConnLife) (q : List Nat) : Prop where
  isOpen : c.closed = false
  balanced : c.ledger.Balanced q
  owns : c.ledger.mem.Owns q

/-- The invariant: an open connection holds its packages, a closed one has none. -/
def Clean (c : ConnLife) : Prop :=
  (∃ q, c.Held q) ∨ (c.closed = true ∧ c.ledger.mem.Owns [])

variable {round : ℚ → ℚ} {c c' : ConnLife}

theorem Clean.livesExact (h : c.Clean) : c.LivesExact := by
  unfold LivesExact
  rcases h with ⟨q, hopen, hbal, howns⟩ | ⟨hclosed, howns⟩
  · rw [if_neg (by rw [hopen]; exact Bool.false_ne_true)]
    exact ⟨q, hbal.queue, howns⟩
  · rw [if_pos hclosed]
    exact howns

theorem init_clean (sendBandwidth : UInt32) (links : Links PkgNode) (clock : Nat) :
    (init sendBandwidth links clock).Clean :=
  Or.inl ⟨[], rfl, QosLedger.init_balanced sendBandwidth links clock, rfl, rfl, List.Perm.refl _⟩

/-- Creating a package and processing an ack keep the set exact. -/
theorem Held.create (h : c.Held q) {pkglen now : UInt32}
    {block : Block (qosHdrLen + pkglen.toNat)}
    (hstep : c.step round (.qos (.create pkglen block now)) = some c') :
    c'.Held (q ++ [c.ledger.mem.created]) := by
  obtain ⟨-, l, hl, rfl⟩ := step_qos hstep
  cases hl
  exact ⟨h.isOpen, h.balanced.create pkglen block now, h.owns.create pkglen now block⟩

theorem Held.process (h : c.Held q) {pkg : NwcQosHdr} {recvTs : UInt32}
    (hstep : c.step round (.qos (.process pkg recvTs)) = some c') : ∃ q', c'.Held q' := by
  obtain ⟨-, l, hl, rfl⟩ := step_qos hstep
  obtain ⟨mem, gone, q', heq, hbal, -⟩ := h.balanced.process round pkg recvTs
  obtain rfl : c.ledger.afterAck mem gone = l := by
    rw [QosLedger.step_process heq] at hl
    exact Option.some.inj hl
  refine ⟨q', h.isOpen, hbal, ?_⟩
  have hq : mem.Queue q' := hbal.queue
  show mem.Owns q'
  rcases QosMemory.processPackage_cases h.balanced.queue h.balanced.created round pkg recvTs with
    ⟨hnone, -⟩ | ⟨pre, k, post, rtt, jitter, rfl, -, -, -, hsome⟩
  · rw [hnone] at heq
    cases heq
    rw [hq.unique h.balanced.queue]
    exact h.owns
  · rw [hsome] at heq
    cases heq
    rw [hq.unique h.balanced.queue.del]
    exact h.owns.del h.balanced.queue.nodup rtt jitter _

/-- The statistics keep what the queue keeps, and the packages stay allocated. -/
theorem step_stat (h : c.Held q) {advance : Nat}
    (hstep : c.step round (.qos (.stat advance)) = some c') :
    c'.closed = false ∧
      c'.ledger.Balanced
        (c.ledger.mem.keptAt (UInt32.ofNat (c.ledger.clock + advance)) q) ∧
      c'.ledger.mem.Owns q := by
  obtain ⟨-, l, hl, rfl⟩ := step_qos hstep
  obtain ⟨mem, rep, heq, hbal⟩ := h.balanced.stat advance
  obtain ⟨m', rep', heq', -, hstore⟩ :=
    QosMemory.stat_spec h.balanced.queue h.balanced.created
      (UInt32.ofNat (c.ledger.clock + advance))
  rw [heq] at heq'
  obtain ⟨rfl, -⟩ := Prod.mk.inj (Option.some.inj heq')
  rw [QosLedger.step_stat heq] at hl
  obtain rfl := Option.some.inj hl
  refine ⟨h.isOpen, hbal, ?_⟩
  have hmem : ((c.ledger.afterStat (c.ledger.clock + advance) mem
      (c.ledger.mem.lostAt (UInt32.ofNat (c.ledger.clock + advance)) q) rep)).mem = mem := by
    cases rep with
    | none => rfl
    | some r => rfl
  rw [hmem, hstore.owns]
  exact h.owns

/-! ### One event -/

/-- Without an overdue package the queue stays as it is. -/
theorem keptAt_of_lostAt_nil {nowms : UInt32} (h : m.lostAt nowms q = []) :
    m.keptAt nowms q = q := by
  refine (QosLedger.keptAt_sublist m nowms q).eq_of_length ?_
  have hperm := QosLedger.kept_lost_perm m nowms q
  rw [h, List.append_nil] at hperm
  exact hperm.length_eq

/-- After an event that leaves none behind the set is exact again. -/
theorem Clean.step {e : LifeEvent} (h : c.Clean) (hgood : c.NoneLeft e)
    (hstep : c.step round e = some c') : c'.Clean := by
  rcases h with ⟨q, h⟩ | ⟨hclosed, -⟩
  · match e with
    | .qos (.create pkglen block now) => exact Or.inl ⟨_, h.create hstep⟩
    | .qos (.process pkg recvTs) => exact Or.inl (h.process hstep)
    | .qos (.stat advance) =>
      obtain ⟨hopen, hbal, howns⟩ := step_stat h hstep
      rw [keptAt_of_lostAt_nil (hgood q h.balanced.queue)] at hbal
      exact Or.inl ⟨q, hopen, hbal, howns⟩
    | .close =>
      obtain ⟨-, rfl⟩ := step_close hstep
      refine Or.inr ⟨rfl, ?_⟩
      rw [← h.balanced.queue.unique hgood]
      exact h.owns
  · rw [step_closed hclosed] at hstep
    cases hstep

/-- An event that leaves a package behind: it stays allocated, and nothing owns it. -/
theorem Clean.step_leaks {e : LifeEvent} (h : c.Clean) (hbad : ¬c.NoneLeft e)
    (hstep : c.step round e = some c') : ¬c'.LivesExact := by
  rcases h with ⟨q, h⟩ | ⟨hclosed, -⟩
  · match e with
    | .qos (.create pkglen block now) => exact absurd trivial hbad
    | .qos (.process pkg recvTs) => exact absurd trivial hbad
    | .qos (.stat advance) =>
      obtain ⟨hopen, hbal, howns⟩ := step_stat h hstep
      intro hexact
      refine hbad fun q' hq' => ?_
      rw [hq'.unique h.balanced.queue]
      rw [LivesExact, if_neg (by rw [hopen]; exact Bool.false_ne_true)] at hexact
      obtain ⟨q'', hq'', howns''⟩ := hexact
      rw [hq''.unique hbal.queue] at howns''
      -- an overdue package is allocated, so it would have to be in the queue still
      refine List.eq_nil_iff_forall_not_mem.mpr fun k hk => ?_
      have hsplit := QosLedger.kept_lost_perm c.ledger.mem
        (UInt32.ofNat (c.ledger.clock + advance)) q
      have hkq : k ∈ q := hsplit.subset (List.mem_append_right _ hk)
      have hnodup := hsplit.nodup_iff.mpr h.balanced.queue.nodup
      exact (List.disjoint_of_nodup_append hnodup) ((howns.mem_iff howns'' k).mp hkq) hk
    | .close =>
      obtain ⟨-, rfl⟩ := step_close hstep
      intro hexact
      refine hbad ?_
      have howns : c.ledger.mem.Owns [] := hexact
      have hnil : q = [] := List.eq_nil_iff_forall_not_mem.mpr fun k hk => by
        simpa using (h.owns.mem_iff howns k).mp hk
      show c.ledger.mem.Queue []
      rw [← hnil]
      exact h.balanced.queue
  · rw [step_closed hclosed] at hstep
    cases hstep

/--
**When the allocated packages are the ones in the queue.**

In a run of a connection's calls, closing it included, the set of allocated packages is the queue,
each package that left was freed once and nothing is left after the close, exactly when the
statistics never find a package overdue and the queue is empty when the connection is closed. What
is overdue depends on how the estimates are rounded; that the two go together does not.
-/
theorem livesExact_iff (round : ℚ → ℚ) (sendBandwidth : UInt32) (links : Links PkgNode)
    (clock : Nat) {es : List LifeEvent} {c : ConnLife}
    (hrun : replay (step round) (init sendBandwidth links clock) es = some c) :
    (∀ t, Visits (step round) (init sendBandwidth links clock) es t → t.LivesExact) ↔
      Along (step round) (init sendBandwidth links clock) es NoneLeft :=
  exact_rule (fun _ h => h.livesExact) (fun _ _ _ h hg hs => h.step hg hs)
    (fun _ _ _ h hb hs => h.step_leaks hb hs) (init_clean sendBandwidth links clock) hrun

/-- A new connection in cleared memory. -/
def fresh : ConnLife := init 6250 ⟨fun _ => .null, fun _ => .null⟩ 0

/-- The clock is read once, and a package of 20 bytes is created. -/
def onePackage : List LifeEvent :=
  [.qos (.stat 1000), .qos (.create 4 (.zero _) 1000)]

/-- The ack of that package. -/
def oneAck : NwcQosHdr where
  timestamp := 1001
  ackTimestamp := 1000
  recvDelay := 0
  length := 4

/-- The ack arrives before the next statistics, and then the connection is closed. -/
theorem ackInTime_livesExact : ∃ c,
    replay (step roundDouble) fresh (onePackage ++ [.qos (.process oneAck 1001), .close]) = some c ∧
      c.LivesExact := by
  obtain ⟨c, hc⟩ := Option.isSome_iff_exists.mp
    (show (replay (step roundDouble) fresh
      (onePackage ++ [.qos (.process oneAck 1001), .close])).isSome by decide +kernel)
  have hlinks : (replay (step roundDouble) fresh (onePackage ++ [.qos (.process oneAck 1001)])).map
      (fun c => (c.ledger.mem.links.next .sentQueue, c.ledger.mem.links.prev .sentQueue))
        = some (.sentQueue, .sentQueue) := by decide +kernel
  refine ⟨c, hc, (livesExact_iff roundDouble 6250 _ 0 hc).mpr ?_ c ⟨_, List.prefix_rfl, hc⟩⟩
  obtain ⟨t, ht, hrest⟩ := replay_cons.mp hc
  obtain ⟨u, hu, hrest⟩ := replay_cons.mp hrest
  obtain ⟨v, hv, hrest⟩ := replay_cons.mp hrest
  obtain ⟨w, hw, -⟩ := replay_cons.mp hrest
  refine (along_cons ht).mpr ⟨fun q _ => rfl, (along_cons hu).mpr ⟨trivial,
    (along_cons hv).mpr ⟨trivial, (along_cons hw).mpr ⟨?_,
      along_nil _ _⟩⟩⟩⟩
  · -- the ack has taken the only package out
    have hreplay : replay (step roundDouble) fresh (onePackage ++ [.qos (.process oneAck 1001)])
        = some v :=
      replay_cons.mpr ⟨t, ht, replay_cons.mpr ⟨u, hu,
        replay_cons.mpr ⟨v, hv, rfl⟩⟩⟩
    rw [hreplay] at hlinks
    obtain ⟨hnext, hprev⟩ := Prod.mk.inj (Option.some.inj hlinks)
    exact ⟨List.nodup_singleton _, ⟨hnext, hprev⟩, rfl⟩

/-- The statistics find it overdue a millisecond later, and then the connection is closed. -/
theorem overduePackage_leaks : ∃ c,
    replay (step roundDouble) fresh (onePackage ++ [.qos (.stat 1), .close]) = some c ∧
      ¬c.LivesExact := by
  obtain ⟨c, hc⟩ := Option.isSome_iff_exists.mp
    (show (replay (step roundDouble) fresh (onePackage ++ [.qos (.stat 1), .close])).isSome by
      decide +kernel)
  have hleft : (replay (step roundDouble) fresh (onePackage ++ [.qos (.stat 1), .close])).map
      (fun c => (c.closed, decide (0 ∈ c.ledger.mem.messages))) = some (true, true) := by
    decide +kernel
  rw [hc] at hleft
  obtain ⟨hclosed, hmem⟩ := Prod.mk.inj (Option.some.inj hleft)
  refine ⟨c, hc, fun hexact => ?_⟩
  rw [LivesExact, if_pos hclosed] at hexact
  have hmem' := of_decide_eq_true hmem
  rw [hexact.messages] at hmem'
  exact absurd hmem' (Finset.notMem_empty 0)

end ConnLife

end Nwchecker
