import Mathlib.Logic.Function.Basic

/-!
# Descriptor tables

The files that a process has open, by their numbers. A new file gets any number that is not in use,
so whoever keeps a number has to know that it is still the same file behind it.
-/

namespace Descriptors

universe u

variable {φ : Type u}

/-- The open descriptors, with what is known about the file behind each. -/
@[ext] structure Table (φ : Type u) where
  file : Int → Option φ
  nonneg : ∀ fd, file fd ≠ none → 0 ≤ fd

namespace Table

variable {d d' : Table φ} {fd x : Int} {f : φ}

/-- The system gives `fd` to a new file. `none`: it does not give out a number that is in use. -/
def opened (d : Table φ) (fd : Int) (f : φ) : Option (Table φ) :=
  if h : 0 ≤ fd ∧ (d.file fd).isNone then
    some
      { file := Function.update d.file fd (some f)
        nonneg := by
          intro x hx
          by_cases hxf : x = fd
          · exact hxf ▸ h.1
          · rw [Function.update_of_ne hxf] at hx
            exact d.nonneg x hx }
  else none

/-- `close`. Without an open file it does nothing. -/
def closed (d : Table φ) (fd : Int) : Table φ where
  file := Function.update d.file fd none
  nonneg := by
    intro x hx
    by_cases hxf : x = fd
    · rw [hxf, Function.update_self] at hx
      exact absurd rfl hx
    · rw [Function.update_of_ne hxf] at hx
      exact d.nonneg x hx

/-- The file behind `fd` changes. -/
def changed (d : Table φ) (fd : Int) (g : φ → φ) : Table φ where
  file := Function.update d.file fd ((d.file fd).map g)
  nonneg := by
    intro x hx
    by_cases hxf : x = fd
    · rw [hxf, Function.update_self, ne_eq, Option.map_eq_none_iff] at hx
      exact hxf ▸ d.nonneg fd hx
    · rw [Function.update_of_ne hxf] at hx
      exact d.nonneg x hx

/-- Nothing is open. -/
def empty : Table φ where
  file := fun _ => none
  nonneg := fun _ h => absurd rfl h

/-- What `opened` does: the number was free, and all else stays as it is. -/
theorem opened_cases (h : d.opened fd f = some d') :
    0 ≤ fd ∧ d.file fd = none ∧ d'.file fd = some f ∧ ∀ x, x ≠ fd → d'.file x = d.file x := by
  unfold opened at h
  split at h
  · next hfree =>
    cases h
    exact ⟨hfree.1, Option.isNone_iff_eq_none.mp hfree.2, Function.update_self ..,
      fun x hx => Function.update_of_ne hx ..⟩
  · cases h

/-- The files that are open already stay what they are. -/
theorem opened_other (h : d.opened fd f = some d') (hx : d.file x ≠ none) :
    d'.file x = d.file x := by
  obtain ⟨-, hnone, -, hother⟩ := opened_cases h
  refine hother x ?_
  rintro rfl
  exact hx hnone

theorem file_neg (d : Table φ) (h : fd < 0) : d.file fd = none := by
  by_contra hne
  have := d.nonneg fd hne
  omega

@[simp] theorem closed_file (d : Table φ) (fd : Int) : (d.closed fd).file fd = none :=
  Function.update_self ..

@[simp] theorem closed_other (d : Table φ) (h : x ≠ fd) : (d.closed fd).file x = d.file x :=
  Function.update_of_ne h ..

/-- A second `close` does nothing. -/
theorem closed_of_none (h : d.file fd = none) : d.closed fd = d := by
  ext1
  rw [closed, Function.update_eq_self_iff, h]

@[simp] theorem changed_file (d : Table φ) (fd : Int) (g : φ → φ) :
    (d.changed fd g).file fd = (d.file fd).map g :=
  Function.update_self ..

@[simp] theorem changed_other (d : Table φ) (g : φ → φ) (h : x ≠ fd) :
    (d.changed fd g).file x = d.file x :=
  Function.update_of_ne h ..

/-- The files behind the numbers afterwards. -/
theorem opened_eq_some {g : φ} (h : d.opened fd f = some d') :
    d'.file x = some g ↔ (x = fd ∧ f = g) ∨ (x ≠ fd ∧ d.file x = some g) := by
  obtain ⟨-, -, hself, hother⟩ := opened_cases h
  by_cases hx : x = fd
  · simp [hx, hself]
  · simp [hx, hother x hx]

theorem closed_eq_some {g : φ} : (d.closed fd).file x = some g ↔ x ≠ fd ∧ d.file x = some g := by
  by_cases hx : x = fd
  · simp [hx]
  · simp [hx]

theorem changed_eq_some {c : φ → φ} {g : φ} : (d.changed fd c).file x = some g ↔
    (x = fd ∧ (d.file fd).map c = some g) ∨ (x ≠ fd ∧ d.file x = some g) := by
  by_cases hx : x = fd
  · simp [hx]
  · simp [hx]

/-- Whatever is opened and closed again leaves no trace. -/
theorem closed_opened (h : d.opened fd f = some d') : d'.closed fd = d := by
  obtain ⟨-, hnone, -, hother⟩ := opened_cases h
  ext1
  funext x
  by_cases hx : x = fd
  · rw [hx, closed_file, hnone]
  · rw [closed_other d' hx, hother x hx]

@[simp] theorem closed_changed (d : Table φ) (fd : Int) (g : φ → φ) :
    (d.changed fd g).closed fd = d.closed fd := by
  simp [closed, changed]

/-- A file that changes when it has been opened might have been opened as what it is now. -/
theorem opened_changed (h : d.opened fd f = some d') (g : φ → φ) :
    d.opened fd (g f) = some (d'.changed fd g) := by
  obtain ⟨hnonneg, hnone, hself, hother⟩ := opened_cases h
  rw [opened, dif_pos ⟨hnonneg, Option.isNone_iff_eq_none.mpr hnone⟩, Option.some.injEq]
  ext1
  funext x
  show Function.update d.file fd (some (g f)) x = _
  by_cases hx : x = fd
  · rw [hx, changed_file, hself, Function.update_self]
    rfl
  · rw [changed_other d' g hx, hother x hx, Function.update_of_ne hx]

end Table

end Descriptors
