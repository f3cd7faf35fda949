import Mathlib.Data.UInt

/-!
# The clock of the protocol

`nwc_qos_milisecs` turns a reading of the monotonic clock into 32 bits. All intervals of the
protocol (the age of a package, the samples of the round trip, `recv_delay`, the statistics
interval) are differences of two such values, modulo `2 ^ 32`.

The function adds a thousand for each second but a unit for each microsecond within the second.
`milisecs_accurate_iff` says between which readings the difference is a number of milliseconds.
-/

namespace Nwchecker

/-- `struct timespec` as `clock_gettime` fills it. -/
structure Timespec where
  tvSec : Nat
  tvNsec : Nat
  tvNsec_lt : tvNsec < 1000000000

/-- `nwc_qos_milisecs` at the reading `ts`. The result of type `uint64_t` is cut to 32 bits. -/
def nwcQosMilisecs (ts : Timespec) : UInt32 :=
  (UInt64.ofNat ts.tvSec * 1000 + UInt64.ofNat ts.tvNsec / 1000).toUInt32

/-- The reading in nanoseconds. -/
def Timespec.nanos (ts : Timespec) : Nat := ts.tvSec * 1000000000 + ts.tvNsec

/-- The whole milliseconds from `t₁` to `t₂`. -/
def elapsedMs (t₁ t₂ : Timespec) : Nat := (t₂.nanos - t₁.nanos) / 1000000

/-- The clock measures the time from `t₁` to `t₂` to within a millisecond. -/
def MeasuresMs (t₁ t₂ : Timespec) : Prop :=
  (nwcQosMilisecs t₂ - nwcQosMilisecs t₁).toNat ≤ elapsedMs t₁ t₂ + 1 ∧
    elapsedMs t₁ t₂ ≤ (nwcQosMilisecs t₂ - nwcQosMilisecs t₁).toNat + 1

instance (t₁ t₂ : Timespec) : Decidable (MeasuresMs t₁ t₂) :=
  inferInstanceAs (Decidable (_ ∧ _))

/-- What the 64-bit sum comes to after the cut. -/
theorem nwcQosMilisecs_toNat (ts : Timespec) :
    (nwcQosMilisecs ts).toNat = (ts.tvSec * 1000 + ts.tvNsec / 1000) % 4294967296 := by
  have hn := ts.tvNsec_lt
  have hnsec : (UInt64.ofNat ts.tvNsec / 1000).toNat = ts.tvNsec / 1000 := by
    rw [UInt64.toNat_div, UInt64.toNat_ofNat', Nat.mod_eq_of_lt (by omega)]
    rfl
  have hsec : (UInt64.ofNat ts.tvSec * 1000).toNat
      = ts.tvSec % 2 ^ 64 * 1000 % 2 ^ 64 := by
    rw [UInt64.toNat_mul, UInt64.toNat_ofNat']
    rfl
  rw [nwcQosMilisecs, UInt64.toNat_toUInt32, UInt64.toNat_add, hnsec, hsec]
  omega

/-- The difference of two readings, as it would be without the cut. -/
theorem milisecs_diff (t₁ t₂ : Timespec) :
    ((nwcQosMilisecs t₂ - nwcQosMilisecs t₁).toNat : Int)
      = ((t₂.tvSec - t₁.tvSec : Int) * 1000
          + ((t₂.tvNsec / 1000 : Nat) - (t₁.tvNsec / 1000 : Nat) : Int)) % 4294967296 := by
  rw [UInt32.toNat_sub, nwcQosMilisecs_toNat, nwcQosMilisecs_toNat]
  omega

/--
Within the second the clock counts microseconds. `f` and `g` are these counts at the end and at
the start, and `i` is what a count of milliseconds would have gone up by.
-/
theorem micros_accurate_iff (n₁ n₂ : Nat) {f g : Nat} {i : Int} (hf : f = n₂ / 1000)
    (hg : g = n₁ / 1000) (hi : i = ((n₂ : Int) - n₁) / 1000000) :
    (-1 ≤ (f : Int) - g - i ∧ (f : Int) - g - i ≤ 1) ↔ f ≤ g + 1 ∧ g ≤ f + 2 := by
  have hlow : 1000 * i ≤ (f : Int) - g := by omega
  have hhigh : (f : Int) - g ≤ 1000 * i + 1000 := by omega
  constructor
  · rintro ⟨h1, h2⟩
    omega
  · rintro ⟨h1, h2⟩
    have hcases : i = -1 ∨ i = 0 := by omega
    rcases hcases with h | h
    · omega
    · omega

/--
**When the clock measures milliseconds.**

Between two readings less than `2 ^ 32` milliseconds apart: exactly when the microseconds within
the second, which count in full, went up by one at most or down by two at most.
-/
theorem milisecs_accurate_iff (t₁ t₂ : Timespec) (hle : t₁.nanos ≤ t₂.nanos)
    (hlt : t₂.nanos - t₁.nanos < 4294967296 * 1000000) :
    MeasuresMs t₁ t₂ ↔
      t₂.tvNsec / 1000 ≤ t₁.tvNsec / 1000 + 1 ∧ t₁.tvNsec / 1000 ≤ t₂.tvNsec / 1000 + 2 := by
  have h1 := t₁.tvNsec_lt
  have h2 := t₂.tvNsec_lt
  have hdiff := milisecs_diff t₁ t₂
  unfold Timespec.nanos at hle hlt
  -- the elapsed time, split at the seconds
  obtain ⟨i, hi⟩ : ∃ i, i = ((t₂.tvNsec : Int) - t₁.tvNsec) / 1000000 := ⟨_, rfl⟩
  have hsplit : (elapsedMs t₁ t₂ : Int) = (t₂.tvSec - t₁.tvSec : Int) * 1000 + i := by
    unfold elapsedMs Timespec.nanos
    omega
  have hms : elapsedMs t₁ t₂ < 4294967296 := by
    unfold elapsedMs Timespec.nanos
    omega
  have hmicros := micros_accurate_iff t₁.tvNsec t₂.tvNsec rfl rfl hi
  -- readings this close are in the same millisecond, or a carry lies between them
  have hcarry : t₂.tvNsec / 1000 ≤ t₁.tvNsec / 1000 + 1 → t₁.tvNsec / 1000 ≤ t₂.tvNsec / 1000 + 2 →
      i = -1 ∨ i = 0 ∧ t₁.tvNsec / 1000 ≤ t₂.tvNsec / 1000 := by
    intro hup hdown
    omega
  have hf : t₂.tvNsec / 1000 < 1000000 := by omega
  have hg : t₁.tvNsec / 1000 < 1000000 := by omega
  have hirange : -1000 ≤ i ∧ i ≤ 1000 := by omega
  clear hi h1 h2 hle hlt
  unfold MeasuresMs
  generalize (nwcQosMilisecs t₂ - nwcQosMilisecs t₁).toNat = d at hdiff ⊢
  generalize elapsedMs t₁ t₂ = ms at hsplit hms ⊢
  generalize t₂.tvNsec / 1000 = f at *
  generalize t₁.tvNsec / 1000 = g at *
  have hd : (d : Int) = (ms + (f - g - i)) % 4294967296 := by
    rw [hdiff, hsplit]
    congr 1
    omega
  constructor
  · rintro ⟨hup, hdown⟩
    rw [← hmicros]
    omega
  · rintro ⟨hup, hdown⟩
    obtain ⟨hδ, hδ'⟩ := hmicros.mpr ⟨hup, hdown⟩
    -- neither end of the 32 bits is near
    have hfits : 0 ≤ (ms : Int) + (f - g - i) ∧ (ms : Int) + (f - g - i) < 4294967296 := by
      rcases hcarry hup hdown with h | ⟨h, hfg⟩
      · omega
      · omega
    rw [Int.emod_eq_of_lt hfits.1 hfits.2] at hd
    omega

/-- A second on the dot is a thousand milliseconds. -/
theorem fullSecond_measuresMs :
    MeasuresMs { tvSec := 1, tvNsec := 0, tvNsec_lt := by decide }
      { tvSec := 2, tvNsec := 0, tvNsec_lt := by decide } :=
  (milisecs_accurate_iff _ _ (by decide) (by decide)).mpr (by decide)

/-- Half a second counts as 500000 milliseconds. -/
theorem halfSecond_not_measuresMs :
    ¬MeasuresMs { tvSec := 1, tvNsec := 0, tvNsec_lt := by decide }
      { tvSec := 1, tvNsec := 500000000, tvNsec_lt := by decide } := by
  decide

end Nwchecker
