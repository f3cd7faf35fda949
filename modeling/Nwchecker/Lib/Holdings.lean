import Mathlib.Data.List.Perm.Basic
import Nwchecker.Lib.Descriptors

/-!
# What a program has opened

A program begins with the files of `d₀` and has `fds` open besides. `Holds` says that it knows what
it has: these are different, were free before, and nothing else has changed. So what it closes is
its own, and when it has closed all of it, the table is what it was.

* `Holds.open`, `Holds.close` — one file more, one file less
* `Holds.eq` — nothing is left open
-/

namespace Descriptors.Table

universe u

variable {φ : Type u} {d₀ d d' : Table φ} {fds fds' : List Int} {fd : Int} {f : φ}

structure Holds (d₀ : Table φ) (fds : List Int) (d : Table φ) : Prop where
  nodup : fds.Nodup
  opened : ∀ fd ∈ fds, d.file fd ≠ none
  free : ∀ fd ∈ fds, d₀.file fd = none
  others : ∀ fd, fd ∉ fds → d.file fd = d₀.file fd

theorem holds_nil (d : Table φ) : d.Holds [] d where
  nodup := List.nodup_nil
  opened := fun _ h => absurd h List.not_mem_nil
  free := fun _ h => absurd h List.not_mem_nil
  others := fun _ _ => rfl

theorem Holds.of_perm (h : d₀.Holds fds d) (hperm : fds.Perm fds') : d₀.Holds fds' d where
  nodup := hperm.nodup_iff.mp h.nodup
  opened := fun fd hfd => h.opened fd (hperm.mem_iff.mpr hfd)
  free := fun fd hfd => h.free fd (hperm.mem_iff.mpr hfd)
  others := fun fd hfd => h.others fd fun hin => hfd (hperm.mem_iff.mp hin)

/-- When nothing is held, nothing has changed. -/
theorem Holds.eq (h : d₀.Holds [] d) : d = d₀ := by
  ext1
  funext fd
  exact h.others fd List.not_mem_nil

/-- The system does not give out what is held. -/
theorem Holds.fresh (h : d₀.Holds fds d) (ho : d.opened fd f = some d') : fd ∉ fds := by
  obtain ⟨-, hnone, -, -⟩ := opened_cases ho
  exact fun hfd => h.opened fd hfd hnone

theorem Holds.open (h : d₀.Holds fds d) (ho : d.opened fd f = some d') :
    d₀.Holds (fd :: fds) d' := by
  have hfresh := h.fresh ho
  obtain ⟨-, hnone, hself, hother⟩ := opened_cases ho
  refine ⟨List.nodup_cons.mpr ⟨hfresh, h.nodup⟩, ?_, ?_, fun x hx => ?_⟩
  · refine List.forall_mem_cons.mpr ⟨by simp [hself], fun x hx => ?_⟩
    rw [hother x fun hxf => hfresh (hxf ▸ hx)]
    exact h.opened x hx
  · refine List.forall_mem_cons.mpr ⟨?_, h.free⟩
    rw [← h.others fd hfresh, hnone]
  · obtain ⟨hne, hnot⟩ := List.ne_and_not_mem_of_not_mem_cons hx
    rw [hother x hne, h.others x hnot]

theorem Holds.close (h : d₀.Holds (fd :: fds) d) : d₀.Holds fds (d.closed fd) := by
  obtain ⟨hfresh, hnodup⟩ := List.nodup_cons.mp h.nodup
  refine ⟨hnodup, fun x hx => ?_, fun x hx => h.free x (List.mem_cons_of_mem _ hx), fun x hx => ?_⟩
  · rw [closed_other _ fun hxf : x = fd => hfresh (hxf ▸ hx)]
    exact h.opened x (List.mem_cons_of_mem _ hx)
  · by_cases hxf : x = fd
    · rw [hxf, closed_file, h.free fd List.mem_cons_self]
    · rw [closed_other _ hxf, h.others x (List.not_mem_cons_of_ne_of_not_mem hxf hx)]

end Descriptors.Table
