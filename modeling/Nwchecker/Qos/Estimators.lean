import Mathlib.Order.Bounds.Basic
import Mathlib.Tactic.Linarith
import Mathlib.Tactic.Ring
import Nwchecker.Qos.Ledger

/-!
# The estimators

An ack that finds its package moves `rtt` an eighth of the way to its sample, and `jitter` an
eighth of the way to what the sample then has over `rtt`. Both are weighted means, and never more
than the largest sample.

The arithmetic is exact here: the rounding is `id`.

The deviation keeps its sign. `jitter` is a mean of something that may be negative, and
`estimates_bounded_iff` says when it is: as soon as `rtt` exceeds the sample of an ack by more than
eight times the jitter.
-/

namespace Nwchecker

open Machine Ring

/-! ## One sample -/

/-- `rtt` and `jitter` of `struct nwc_qos_protocol`. -/
structure Estimate where
  rtt : ℚ
  jitter : ℚ
  deriving DecidableEq

namespace Estimate

/-- How `nwc_qos_process_package` updates them. The deviation is from the new `rtt`. -/
def sample (e : Estimate) (s : ℚ) : Estimate :=
  let rtt := e.rtt * (7 / 8) + s * (1 / 8)
  { rtt := rtt
    jitter := e.jitter * (7 / 8) + (s - rtt) * (1 / 8) }

variable {e : Estimate} {s m : ℚ}

/-- In terms of the old `rtt`. -/
theorem sample_jitter (e : Estimate) (s : ℚ) :
    (e.sample s).jitter = (8 * e.jitter + (s - e.rtt)) * (7 / 64) := by
  simp only [sample]
  ring

theorem sample_rtt_nonneg (hr : 0 ≤ e.rtt) (hs : 0 ≤ s) : 0 ≤ (e.sample s).rtt := by
  simp only [sample]
  linarith

theorem sample_rtt_le (hr : e.rtt ≤ m) (hs : s ≤ m) : (e.sample s).rtt ≤ m := by
  simp only [sample]
  linarith

theorem sample_jitter_le (hr : 0 ≤ e.rtt) (hj : e.jitter ≤ m) (hs : s ≤ m) (hm : 0 ≤ m) :
    (e.sample s).jitter ≤ m := by
  rw [sample_jitter]
  linarith

theorem sample_jitter_nonneg_iff : 0 ≤ (e.sample s).jitter ↔ e.rtt ≤ s + 8 * e.jitter := by
  rw [sample_jitter]
  constructor
  · intro h
    linarith
  · intro h
    linarith

/-- The estimate after a call that takes this sample, if it takes one. -/
def next (e : Estimate) : Option ℚ → Estimate
  | some s => e.sample s
  | none => e

end Estimate

/-! ## The samples of a call -/

namespace QosMemory

def estimate (m : QosMemory) : Estimate where
  rtt := m.rtt
  jitter := m.jitter

/-- The sample that a call takes: that of an ack whose package is in the queue. -/
def sampleOf (m : QosMemory) : QosEvent → Option ℚ
  | .process pkg recvTs =>
    if pkg.ackTimestamp = 0 then none
    else
      match m.getPkgEntry pkg.ackTimestamp with
      | some (some (.entry _)) => some (rttSample id pkg recvTs)
      | _ => none
  | _ => none

variable {m m' : QosMemory} {q : List Nat}

theorem processPackage_estimate {pkg : NwcQosHdr} {recvTs : UInt32} {gone : Option Nat}
    (h : m.processPackage id pkg recvTs = some (m', gone)) :
    m'.estimate = m.estimate.next (m.sampleOf (.process pkg recvTs)) := by
  unfold processPackage at h
  simp only [sampleOf]
  by_cases h0 : pkg.ackTimestamp = 0
  · rw [if_pos h0] at h ⊢
    cases h
    rfl
  · rw [if_neg h0] at h ⊢
    split at h
    · rename_i k hk
      cases h
      rw [hk]
      rfl
    · rename_i found hfound hget
      cases h
      rw [hget]
      split
      · rename_i k hk
        exact absurd hk (by simpa using hfound k)
      · rfl
    · cases h

theorem stat_estimate (h : m.Queue q) (hq : ∀ k ∈ q, k < m.created) {nowms : UInt32}
    {lost : List Nat} {rep : Option NwcQosReport} (hstat : m.stat nowms = some (m', lost, rep)) :
    m'.estimate = m.estimate := by
  rcases stat_cases h hq nowms with
    ⟨-, heq⟩ | ⟨-, links, loss, -, -, ⟨-, heq⟩ | ⟨-, heq⟩⟩
  · rw [heq] at hstat
    cases hstat
    rfl
  · rw [heq] at hstat
    cases hstat
    rfl
  · rw [heq] at hstat
    cases hstat
    rfl

end QosMemory

/-- A call moves the estimate by its sample, and not without one. -/
theorem QosLedger.Balanced.step_estimate {l l' : QosLedger} {q : List Nat} (h : l.Balanced q)
    {e : QosEvent} (hstep : l.step id e = some l') :
    l'.mem.estimate = l.mem.estimate.next (l.mem.sampleOf e) := by
  cases e with
  | create pkglen block now =>
    cases hstep
    rfl
  | process pkg recvTs =>
    simp only [QosLedger.step] at hstep
    split at hstep
    · rename_i mem gone hprocess
      cases hstep
      exact QosMemory.processPackage_estimate hprocess
    · cases hstep
  | stat advance =>
    simp only [QosLedger.step] at hstep
    split at hstep
    · rename_i mem gone rep hstat
      cases hstep
      have hmem : (l.afterStat (l.clock + advance) mem gone rep).mem = mem := by
        cases rep with
        | none => rfl
        | some r => rfl
      rw [hmem]
      exact QosMemory.stat_estimate h.queue h.created hstat
    · cases hstep

/-! ## Runs -/

/-- The calls on a connection, and the samples they have taken. -/
structure EstimatorRun where
  ledger : QosLedger
  samples : List ℚ

namespace EstimatorRun

/-- A connection that `nwc_qos_init` has just set up. -/
def init (sendBandwidth : UInt32) (links : Links PkgNode) (clock : Nat) : EstimatorRun where
  ledger := .init sendBandwidth links clock
  samples := []

def rtt (r : EstimatorRun) : ℚ := r.ledger.mem.rtt

def jitter (r : EstimatorRun) : ℚ := r.ledger.mem.jitter

/-- The sample that a call takes. -/
def sampleOf (r : EstimatorRun) (e : QosEvent) : Option ℚ := r.ledger.mem.sampleOf e

/-- One call. The samples of the runs here are not negative. -/
def step (r : EstimatorRun) (e : QosEvent) : Option EstimatorRun :=
  if ∀ s ∈ r.sampleOf e, 0 ≤ s then
    match r.ledger.step id e with
    | some l => some { ledger := l, samples := r.samples ++ (r.sampleOf e).toList }
    | none => none
  else none

/-- The estimates lie between zero and the largest sample so far. -/
structure Bounded (r : EstimatorRun) : Prop where
  rtt_nonneg : 0 ≤ r.rtt
  jitter_nonneg : 0 ≤ r.jitter
  le_largest : ∀ m, IsGreatest {s | s ∈ r.samples} m → r.rtt ≤ m ∧ r.jitter ≤ m

/-- What holds in every run. Only `jitter` has no lower bound here. -/
structure Within (r : EstimatorRun) : Prop where
  balanced : ∃ q, r.ledger.Balanced q
  samples_nonneg : ∀ s ∈ r.samples, 0 ≤ s
  rtt_nonneg : 0 ≤ r.rtt
  le_bound : ∀ m, 0 ≤ m → (∀ s ∈ r.samples, s ≤ m) → r.rtt ≤ m ∧ r.jitter ≤ m

/-- The jitter is not negative either. -/
structure Steady (r : EstimatorRun) : Prop extends Within r where
  jitter_nonneg : 0 ≤ r.jitter

/-- An ack does not fall below `rtt` by more than eight times the jitter. -/
def Covered (r : EstimatorRun) (e : QosEvent) : Prop :=
  ∀ s ∈ r.sampleOf e, r.rtt ≤ s + 8 * r.jitter

instance (r : EstimatorRun) (e : QosEvent) : Decidable (Covered r e) :=
  inferInstanceAs (Decidable (∀ s ∈ r.sampleOf e, _))

variable {r r' : EstimatorRun} {e : QosEvent}

theorem init_steady (sendBandwidth : UInt32) (links : Links PkgNode) (clock : Nat) :
    (init sendBandwidth links clock).Steady where
  balanced := ⟨[], QosLedger.init_balanced sendBandwidth links clock⟩
  samples_nonneg := fun s hs => by simp [init] at hs
  rtt_nonneg := le_refl 0
  le_bound := fun m hm _ => ⟨hm, hm⟩
  jitter_nonneg := le_refl 0

/-- The largest sample is a bound, and the only one that matters. -/
theorem Steady.bounded (h : r.Steady) : r.Bounded where
  rtt_nonneg := h.rtt_nonneg
  jitter_nonneg := h.jitter_nonneg
  le_largest := fun m hm => h.le_bound m (h.samples_nonneg m hm.1) fun _ hs => hm.2 hs

theorem step_cases (hstep : r.step e = some r') :
    (∀ s ∈ r.sampleOf e, 0 ≤ s) ∧ r.ledger.step id e = some r'.ledger ∧
      r'.samples = r.samples ++ (r.sampleOf e).toList := by
  unfold step at hstep
  split at hstep
  · rename_i hnonneg
    split at hstep
    · rename_i l hl
      cases hstep
      exact ⟨hnonneg, hl, rfl⟩
    · cases hstep
  · cases hstep

theorem Within.step_estimate (h : r.Within) (hstep : r.step e = some r') :
    r'.ledger.mem.estimate = r.ledger.mem.estimate.next (r.sampleOf e) := by
  obtain ⟨q, hq⟩ := h.balanced
  obtain ⟨-, hl, -⟩ := step_cases hstep
  exact hq.step_estimate hl

theorem Within.step (h : r.Within) (hstep : r.step e = some r') : r'.Within := by
  obtain ⟨hnonneg, hl, hsamples⟩ := step_cases hstep
  have hestimate := h.step_estimate hstep
  have hbalanced : ∃ q, r'.ledger.Balanced q := by
    obtain ⟨q, hq⟩ := h.balanced
    obtain ⟨l', q', hl', hq'⟩ := hq.step id e
    rw [hl] at hl'
    cases hl'
    exact ⟨q', hq'⟩
  cases hs : r.sampleOf e with
  | none =>
    rw [hs, Option.toList_none, List.append_nil] at hsamples
    rw [hs] at hestimate
    have hrtt : r'.rtt = r.rtt := congrArg Estimate.rtt hestimate
    have hjitter : r'.jitter = r.jitter := congrArg Estimate.jitter hestimate
    refine ⟨hbalanced, ?_, ?_, ?_⟩
    · rw [hsamples]
      exact h.samples_nonneg
    · rw [hrtt]
      exact h.rtt_nonneg
    · rw [hsamples, hrtt, hjitter]
      exact h.le_bound
  | some s =>
    rw [hs, Option.toList_some] at hsamples
    rw [hs] at hestimate
    have hs0 : 0 ≤ s := hnonneg s hs
    have hrtt : r'.rtt = (r.ledger.mem.estimate.sample s).rtt := congrArg Estimate.rtt hestimate
    have hjitter : r'.jitter = (r.ledger.mem.estimate.sample s).jitter :=
      congrArg Estimate.jitter hestimate
    refine ⟨hbalanced, ?_, ?_, ?_⟩
    · rw [hsamples]
      simpa [or_imp, forall_and, hs0] using h.samples_nonneg
    · rw [hrtt]
      exact Estimate.sample_rtt_nonneg h.rtt_nonneg hs0
    · intro m hm hle
      simp only [hsamples, List.mem_append, List.mem_singleton, or_imp, forall_and,
        forall_eq] at hle
      obtain ⟨hr, hj⟩ := h.le_bound m hm hle.1
      rw [hrtt, hjitter]
      exact ⟨Estimate.sample_rtt_le hr hle.2,
        Estimate.sample_jitter_le h.rtt_nonneg hj hle.2 hm⟩

/-- The jitter after a call is negative exactly when its sample was not covered. -/
theorem Steady.step_jitter (h : r.Steady) (hstep : r.step e = some r') :
    0 ≤ r'.jitter ↔ Covered r e := by
  have hestimate := h.toWithin.step_estimate hstep
  unfold Covered
  cases hs : r.sampleOf e with
  | none =>
    rw [hs] at hestimate
    have hjitter : r'.jitter = r.jitter := congrArg Estimate.jitter hestimate
    simp [hjitter, h.jitter_nonneg]
  | some s =>
    rw [hs] at hestimate
    have hjitter : r'.jitter = (r.ledger.mem.estimate.sample s).jitter :=
      congrArg Estimate.jitter hestimate
    rw [hjitter, Estimate.sample_jitter_nonneg_iff]
    simp [rtt, jitter, QosMemory.estimate]

/--
**The estimates are bounded as long as the jitter covers how far the samples fall below `rtt`.**

For every sequence of acks, packages and statistics in which no sample is negative. `rtt` keeps its
bounds anyway, and `jitter` its upper one.
-/
theorem estimates_bounded_iff (sendBandwidth : UInt32) (links : Links PkgNode) (clock : Nat)
    {es : List QosEvent} (hrun : replay step (init sendBandwidth links clock) es = some r) :
    (∀ t, Visits step (init sendBandwidth links clock) es t → t.Bounded) ↔
      Along step (init sendBandwidth links clock) es Covered := by
  refine exact_rule (fun _ h => h.bounded) ?_ ?_ (init_steady sendBandwidth links clock) hrun
  · intro s e t h hcovered hstep
    exact ⟨h.toWithin.step hstep, (h.step_jitter hstep).mpr hcovered⟩
  · intro s e t h hbad hstep hbounded
    exact hbad ((h.step_jitter hstep).mp hbounded.jitter_nonneg)

/-- A package sent at `sent` whose ack comes `ms` milliseconds later. -/
def roundTrip (sent ms : UInt32) : List QosEvent :=
  [.create 4 (.zero _) sent,
    .process { timestamp := sent, ackTimestamp := sent, recvDelay := 0, length := 4 } (sent + ms)]

/-- A new connection in cleared memory. -/
def fresh : EstimatorRun := init 6250 ⟨fun _ => .null, fun _ => .null⟩ 0

/-- A slow ack and a fast one. -/
theorem twoAcks_bounded : ∃ r, replay step fresh (roundTrip 1000 80 ++ roundTrip 2000 20) = some r ∧
    r.samples = [80, 20] ∧ r.Bounded := by
  obtain ⟨r, hr⟩ := Option.isSome_iff_exists.mp
    (show (replay step fresh (roundTrip 1000 80 ++ roundTrip 2000 20)).isSome by decide +kernel)
  have hsamples : (replay step fresh (roundTrip 1000 80 ++ roundTrip 2000 20)).map
      EstimatorRun.samples = some [80, 20] := by decide +kernel
  rw [hr] at hsamples
  refine ⟨r, hr, Option.some.inj hsamples, ?_⟩
  refine (estimates_bounded_iff 6250 _ 0 hr).mpr ?_ r ⟨_, List.prefix_rfl, hr⟩
  show Along step fresh _ _
  decide +kernel

/-- One slow ack and then eight that come within the millisecond. -/
def slowStart : List QosEvent :=
  roundTrip 1000 80 ++ (List.range 8).flatMap fun i => roundTrip (UInt32.ofNat (2000 + i)) 0

theorem slowStart_jitter_neg : ∃ r, replay step fresh slowStart = some r ∧ r.jitter < 0 ∧
    ¬r.Bounded := by
  obtain ⟨r, hr⟩ := Option.isSome_iff_exists.mp
    (show (replay step fresh slowStart).isSome by decide +kernel)
  have hneg : (replay step fresh slowStart).map (fun r => decide (r.jitter < 0)) = some true := by
    decide +kernel
  rw [hr, Option.map_some, Option.some.injEq, decide_eq_true_eq] at hneg
  exact ⟨r, hr, hneg, fun h => absurd h.jitter_nonneg (not_le.mpr hneg)⟩

end EstimatorRun

end Nwchecker
