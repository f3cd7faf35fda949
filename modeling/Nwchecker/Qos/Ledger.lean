import Mathlib.Data.List.Perm.Subperm
import Nwchecker.Lib.Machine
import Nwchecker.Qos.Memory

/-!
# The packages of a connection, one by one

A connection creates packages, gets acks and makes statistics, in an order that depends on the
network and on the clock. The ledger keeps the protocol in memory and writes down where each
package went: `acked` when an ack took it out of the queue, `lost` when the statistics counted it.

`packages_conserved` is the balance: what was created is in the queue, or acked, or lost.
-/

namespace Nwchecker

open Ring Words

/-! ## The events -/

/-- The calls that use the protocol of a connection. -/
inductive QosEvent where
  /-- `nwc_qos_create_package` in a block from `malloc`, and the timestamp its caller sets. -/
  | create (pkglen : UInt32) (block : Block (qosHdrLen + pkglen.toNat)) (now : UInt32)
  /-- `nwc_qos_process_package` -/
  | process (pkg : NwcQosHdr) (recvTs : UInt32)
  /-- `nwc_qos_stat`, so many milliseconds after the one before -/
  | stat (advance : Nat)

def QosEvent.isCreate : QosEvent → Bool
  | .create .. => true
  | _ => false

/-- What a report said, and the window it is about. -/
structure WindowReport where
  report : NwcQosReport
  /-- The size of the packages created since the last report. -/
  bytes : Nat
  /-- Milliseconds from `last_stat_ts` to the report. -/
  elapsed : Nat
  deriving DecidableEq

structure QosLedger where
  mem : QosMemory
  /-- The packages that acks took out of the queue. -/
  acked : List Nat
  /-- One package for each increment of `loss_packages_per_secs`. -/
  lost : List Nat
  /-- When the statistics were last made. The code reads it modulo `2^32`. -/
  clock : Nat
  /-- When `last_stat_ts` was set. -/
  windowStart : Nat
  /-- The packages created before the last report. -/
  windowFirst : Nat
  /-- How many of `lost` the reports so far have seen. -/
  windowLost : Nat
  /-- The size of the packages created since the last report. -/
  windowBytes : Nat
  reports : List WindowReport

namespace QosLedger

/-- A connection that `nwc_qos_init` has just set up, whatever its memory held. -/
def init (sendBandwidth : UInt32) (links : Links PkgNode) (clock : Nat) : QosLedger where
  mem := .init sendBandwidth links
  acked := []
  lost := []
  clock := clock
  windowStart := clock
  windowFirst := 0
  windowLost := 0
  windowBytes := 0
  reports := []

/-- The packages counted as lost since the last report. -/
def lostNow (l : QosLedger) : List Nat := l.lost.drop l.windowLost

/-- `nwc_qos_create_package`, and `pkg->timestamp = now` in the caller. -/
def create (l : QosLedger) (pkglen : UInt32) (block : Block (qosHdrLen + pkglen.toNat))
    (now : UInt32) : QosLedger :=
  { l with
    mem := (l.mem.createPackage pkglen block).1.stamp (l.mem.createPackage pkglen block).2 now
    windowBytes := l.windowBytes + (qosHdrLen + pkglen.toNat) }

/-- After `nwc_qos_process_package` took `gone` out of the queue. -/
def afterAck (l : QosLedger) (mem : QosMemory) (gone : Option Nat) : QosLedger :=
  { l with
    mem := mem
    acked := l.acked ++ gone.toList }

/-- After a `nwc_qos_stat` at `now` that counted `gone`. A report begins a new window. -/
def afterStat (l : QosLedger) (now : Nat) (mem : QosMemory) (gone : List Nat)
    (rep : Option NwcQosReport) : QosLedger :=
  let counted : QosLedger :=
    { l with
      mem := mem
      lost := l.lost ++ gone
      clock := now
      windowStart := if l.mem.lastStatTs = 0 then now else l.windowStart }
  match rep with
  | none => counted
  | some r =>
    { counted with
      windowStart := now
      windowFirst := mem.created
      windowLost := counted.lost.length
      windowBytes := 0
      reports := l.reports ++ [⟨r, l.windowBytes, now - l.windowStart⟩] }

/--
One call, on a machine that rounds as `round` does. `none` when the function runs around in the
queue and does not come back.
-/
def step (round : ℚ → ℚ) (l : QosLedger) : QosEvent → Option QosLedger
  | .create pkglen block now => some (l.create pkglen block now)
  | .process pkg recvTs =>
    match l.mem.processPackage round pkg recvTs with
    | some (mem, gone) => some (l.afterAck mem gone)
    | none => none
  | .stat advance =>
    match l.mem.stat (UInt32.ofNat (l.clock + advance)) with
    | some (mem, gone, rep) => some (l.afterStat (l.clock + advance) mem gone rep)
    | none => none

variable {round : ℚ → ℚ}

theorem step_process {l : QosLedger} {pkg : NwcQosHdr} {recvTs : UInt32} {mem : QosMemory}
    {gone : Option Nat} (h : l.mem.processPackage round pkg recvTs = some (mem, gone)) :
    l.step round (.process pkg recvTs) = some (l.afterAck mem gone) := by
  simp only [step, h]

theorem step_stat {l : QosLedger} {advance : Nat} {mem : QosMemory} {gone : List Nat}
    {rep : Option NwcQosReport}
    (h : l.mem.stat (UInt32.ofNat (l.clock + advance)) = some (mem, gone, rep)) :
    l.step round (.stat advance) = some (l.afterStat (l.clock + advance) mem gone rep) := by
  simp only [step, h]

/-! ## The balance -/

/-- The books of a connection whose queue holds `q`. -/
structure Balanced (l : QosLedger) (q : List Nat) : Prop where
  queue : l.mem.Queue q
  /-- Oldest first. -/
  sorted : q.Pairwise (· < ·)
  /-- Every package is in one place, once. -/
  perm : (q ++ l.acked ++ l.lost).Perm (List.range l.mem.created)
  /-- The counter stands for the packages lost since the last report. -/
  counter : l.mem.lossPackagesPerSecs = UInt32.ofNat l.lostNow.length
  window : l.windowLost ≤ l.lost.length

variable {l l' : QosLedger} {q : List Nat}

theorem Balanced.created (h : l.Balanced q) : ∀ k ∈ q, k < l.mem.created := by
  intro k hk
  refine List.mem_range.mp (h.perm.subset ?_)
  exact List.mem_append_left _ (List.mem_append_left _ hk)

theorem init_balanced (sendBandwidth : UInt32) (links : Links PkgNode) (clock : Nat) :
    (init sendBandwidth links clock).Balanced [] where
  queue := QosMemory.init_queue sendBandwidth links
  sorted := List.Pairwise.nil
  perm := List.Perm.refl _
  counter := rfl
  window := Nat.le_refl _

theorem Balanced.create (h : l.Balanced q) (pkglen : UInt32)
    (block : Block (qosHdrLen + pkglen.toNat)) (now : UInt32) :
    (l.create pkglen block now).Balanced (q ++ [l.mem.created]) where
  queue := QosMemory.createPackage_queue h.queue h.created pkglen block
  sorted := by
    rw [List.pairwise_append]
    refine ⟨h.sorted, List.pairwise_singleton _ _, fun k hk j hj => ?_⟩
    rw [List.mem_singleton.mp hj]
    exact h.created k hk
  perm := by
    show (q ++ [l.mem.created] ++ l.acked ++ l.lost).Perm (List.range (l.mem.created + 1))
    rw [List.range_succ]
    refine List.Perm.trans ?_ (h.perm.append_right [l.mem.created])
    simp only [List.append_assoc]
    refine List.Perm.append_left q ?_
    rw [← List.append_assoc l.acked]
    exact List.perm_append_comm
  counter := h.counter
  window := h.window

/-! ### Acks -/

/--
What an ack may do to the queue: nothing, when it acknowledges nothing or nothing waits for it;
otherwise the oldest package with its timestamp goes and the others keep their order.
-/
inductive TakesOldest (m : QosMemory) (ackTs : UInt32) (q : List Nat) :
    Option Nat → List Nat → Prop where
  | none (h : ackTs = 0 ∨ ∀ k ∈ q, m.timestampAt k ≠ ackTs) : TakesOldest m ackTs q none q
  | oldest {pre post : List Nat} {k : Nat} (hq : q = pre ++ k :: post) (hack : ackTs ≠ 0)
      (hk : m.timestampAt k = ackTs) (hpre : ∀ j ∈ pre, m.timestampAt j ≠ ackTs) :
      TakesOldest m ackTs q (some k) (pre ++ post)

theorem Balanced.process (h : l.Balanced q) (round : ℚ → ℚ) (pkg : NwcQosHdr)
    (recvTs : UInt32) :
    ∃ mem gone q', l.mem.processPackage round pkg recvTs = some (mem, gone) ∧
      (l.afterAck mem gone).Balanced q' ∧ TakesOldest l.mem pkg.ackTimestamp q gone q' := by
  rcases QosMemory.processPackage_cases h.queue h.created round pkg recvTs with
    ⟨heq, hnone⟩ | ⟨pre, k, post, rtt, jitter, rfl, hack, hk, hpre, heq⟩
  · refine ⟨l.mem, none, q, heq, ?_, .none hnone⟩
    have hsame : l.afterAck l.mem none = l := by
      unfold afterAck
      rw [Option.toList_none, List.append_nil]
    rw [hsame]
    exact h
  · refine ⟨_, some k, pre ++ post, heq, ?_, .oldest rfl hack hk hpre⟩
    refine ⟨h.queue.del, ?_, ?_, h.counter, h.window⟩
    · refine h.sorted.sublist ?_
      exact List.Sublist.append_left (List.sublist_cons_self k post) pre
    · show (pre ++ post ++ (l.acked ++ [k]) ++ l.lost).Perm (List.range l.mem.created)
      refine List.Perm.trans ?_ h.perm
      simp only [List.append_assoc, List.cons_append, List.nil_append]
      refine List.Perm.append_left pre ?_
      rw [← List.append_assoc post, ← List.append_assoc post]
      exact List.perm_middle

/-! ### The statistics -/

/-- Nothing is lost yet in a new window. -/
theorem lostNow_report (l : QosLedger) (now : Nat) (mem : QosMemory) (gone : List Nat)
    (r : NwcQosReport) : (l.afterStat now mem gone (some r)).lostNow = [] := List.drop_length

/-- The overdue packages and the others make up the queue. -/
theorem kept_lost_perm (m : QosMemory) (nowms : UInt32) (q : List Nat) :
    (m.keptAt nowms q ++ m.lostAt nowms q).Perm q := by
  unfold QosMemory.keptAt QosMemory.lostAt
  split
  · rw [List.append_nil]
  · exact List.perm_append_comm.trans (List.filter_append_perm _ q)

theorem keptAt_sublist (m : QosMemory) (nowms : UInt32) (q : List Nat) :
    (m.keptAt nowms q).Sublist q := by
  unfold QosMemory.keptAt
  split
  · exact List.Sublist.refl q
  · exact List.filter_sublist

/-- Packages that go from the queue to the lost ones. -/
theorem Balanced.perm_lost (h : l.Balanced q) {kept gone : List Nat}
    (hsplit : (kept ++ gone).Perm q) :
    (kept ++ l.acked ++ (l.lost ++ gone)).Perm (List.range l.mem.created) := by
  refine List.Perm.trans ?_ h.perm
  refine List.Perm.trans ?_ ((hsplit.append_right l.acked).append_right l.lost)
  simp only [List.append_assoc]
  refine List.Perm.append_left kept ?_
  rw [← List.append_assoc]
  exact List.perm_append_comm

/-- What the statistics count moves from the queue to the lost packages. -/
theorem Balanced.stat (h : l.Balanced q) (advance : Nat) :
    ∃ mem rep, l.mem.stat (UInt32.ofNat (l.clock + advance))
        = some (mem, l.mem.lostAt (UInt32.ofNat (l.clock + advance)) q, rep) ∧
      (l.afterStat (l.clock + advance) mem
        (l.mem.lostAt (UInt32.ofNat (l.clock + advance)) q) rep).Balanced
          (l.mem.keptAt (UInt32.ofNat (l.clock + advance)) q) := by
  have hsorted := h.sorted.sublist (keptAt_sublist l.mem (UInt32.ofNat (l.clock + advance)) q)
  have hsplit := kept_lost_perm l.mem (UInt32.ofNat (l.clock + advance)) q
  have hcount : ∀ gone : List Nat, l.mem.lossPackagesPerSecs + UInt32.ofNat gone.length
      = UInt32.ofNat ((l.lost ++ gone).drop l.windowLost).length := by
    intro gone
    rw [h.counter, lostNow, List.drop_append_of_le_length h.window, List.length_append,
      UInt32.ofNat_add]
  have hwindow : ∀ gone : List Nat, l.windowLost ≤ (l.lost ++ gone).length := by
    intro gone
    rw [List.length_append]
    exact Nat.le_add_right_of_le h.window
  rcases QosMemory.stat_cases h.queue h.created (UInt32.ofNat (l.clock + advance)) with
    ⟨h0, heq⟩ | ⟨-, links, loss, hring, hloss, ⟨-, heq⟩ | ⟨-, heq⟩⟩
  · have hkept : l.mem.keptAt (UInt32.ofNat (l.clock + advance)) q = q := if_pos h0
    have hlost : l.mem.lostAt (UInt32.ofNat (l.clock + advance)) q = [] := if_pos h0
    rw [heq, hkept, hlost]
    refine ⟨_, _, rfl, h.queue, h.sorted, h.perm_lost (by rw [List.append_nil]), ?_, hwindow []⟩
    have hnil : l.mem.lossPackagesPerSecs + UInt32.ofNat ([] : List Nat).length
        = l.mem.lossPackagesPerSecs := by simp
    exact hnil.symm.trans (hcount [])
  · rw [heq]
    exact ⟨_, _, rfl, hring, hsorted, h.perm_lost hsplit, hloss.trans (hcount _), hwindow _⟩
  · rw [heq]
    refine ⟨_, _, rfl, hring, hsorted, h.perm_lost hsplit, ?_, Nat.le_refl _⟩
    rw [lostNow_report]
    rfl

/-! ## Runs -/

/-- Every call returns and keeps the books. -/
theorem Balanced.step (h : l.Balanced q) (round : ℚ → ℚ) (e : QosEvent) :
    ∃ l' q', l.step round e = some l' ∧ l'.Balanced q' := by
  cases e with
  | create pkglen block now => exact ⟨_, _, rfl, h.create pkglen block now⟩
  | process pkg recvTs =>
    obtain ⟨mem, gone, q', heq, h', -⟩ := h.process round pkg recvTs
    exact ⟨_, q', step_process heq, h'⟩
  | stat advance =>
    obtain ⟨mem, rep, heq, h'⟩ := h.stat advance
    exact ⟨_, _, step_stat heq, h'⟩

/-- Only `nwc_qos_create_package` makes packages. -/
theorem Balanced.step_created (h : l.Balanced q) {e : QosEvent} (hstep : l.step round e = some l') :
    l'.mem.created = l.mem.created + [e].countP QosEvent.isCreate := by
  cases e with
  | create pkglen block now =>
    cases hstep
    rfl
  | process pkg recvTs =>
    rcases QosMemory.processPackage_cases h.queue h.created round pkg recvTs with
      ⟨heq, -⟩ | ⟨pre, k, post, rtt, jitter, -, -, -, -, heq⟩
    · rw [step_process heq] at hstep
      cases hstep
      rfl
    · rw [step_process heq] at hstep
      cases hstep
      rfl
  | stat advance =>
    obtain ⟨mem, rep, heq, -, hsame⟩ :=
      QosMemory.stat_spec h.queue h.created (UInt32.ofNat (l.clock + advance))
    rw [step_stat heq] at hstep
    cases hstep
    cases rep with
    | none => exact hsame.created
    | some r => exact hsame.created

/-- The run of any calls there are. -/
theorem run_balanced (round : ℚ → ℚ) (es : List QosEvent) {l : QosLedger} {q : List Nat}
    (h : l.Balanced q) :
    ∃ l' q', Machine.replay (QosLedger.step round) l es = some l' ∧ l'.Balanced q' ∧
      l'.mem.created = l.mem.created + es.countP QosEvent.isCreate := by
  induction es generalizing l q with
  | nil => exact ⟨l, q, rfl, h, rfl⟩
  | cons e es ih =>
    obtain ⟨t, q₁, ht, h₁⟩ := h.step round e
    obtain ⟨l', q', hrun, h', hcreated⟩ := ih h₁
    refine ⟨l', q', Machine.replay_cons.mpr ⟨t, ht, hrun⟩, h', ?_⟩
    rw [hcreated, h.step_created ht, Nat.add_assoc, ← List.countP_append, List.singleton_append]

/--
**Packages are conserved.**

Whatever is created, acknowledged and counted, in whatever order and at whatever readings of the
clock, and however the estimates are rounded: the functions return, and each package is in the
queue, in the order of creation, or was taken out by one ack, or is counted by one increment of
`loss_packages_per_secs`. In every such state an ack takes the oldest package with its timestamp
and leaves the others as they were.
-/
theorem packages_conserved (round : ℚ → ℚ) (sendBandwidth : UInt32) (links : Links PkgNode)
    (clock : Nat) (es : List QosEvent) :
    ∃ l q, Machine.replay (QosLedger.step round) (init sendBandwidth links clock) es = some l ∧
      l.mem.created = es.countP QosEvent.isCreate ∧
      l.mem.Queue q ∧ q.Pairwise (· < ·) ∧
      (q ++ l.acked ++ l.lost).Perm (List.range l.mem.created) ∧
      l.mem.created = q.length + l.acked.length + l.lost.length ∧
      l.mem.lossPackagesPerSecs = UInt32.ofNat (l.lost.length - l.windowLost) ∧
      ∀ pkg recvTs, ∃ mem gone q',
        l.step round (.process pkg recvTs) = some (l.afterAck mem gone) ∧ mem.Queue q' ∧
          TakesOldest l.mem pkg.ackTimestamp q gone q' := by
  obtain ⟨l, q, hrun, h, hcreated⟩ :=
    run_balanced round es (init_balanced sendBandwidth links clock)
  have hlen : l.mem.created = q.length + l.acked.length + l.lost.length := by
    have hle := h.perm.length_eq
    simp only [List.length_append, List.length_range] at hle
    exact hle.symm
  refine ⟨l, q, hrun, hcreated.trans (Nat.zero_add _), h.queue, h.sorted, h.perm, hlen, ?_,
    fun pkg recvTs => ?_⟩
  · rw [h.counter, lostNow, List.length_drop]
  · obtain ⟨mem, gone, q', heq, h', htakes⟩ := h.process round pkg recvTs
    exact ⟨mem, gone, q', step_process heq, h'.queue, htakes⟩

end QosLedger

end Nwchecker
