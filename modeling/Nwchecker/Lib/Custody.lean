import Mathlib.Data.List.Nodup
import Mathlib.Data.List.Perm.Basic

/-!
# One place for each

Things are numbered as they come in, and each is kept at one of several places. `Exact n place`
says that nothing is lost and nothing is kept twice: the numbers below `n` are at exactly one
place each, once, and no others are anywhere.

* `Exact.issue` — the next thing comes in
* `Exact.transfer` — some things move from one place to another
* `Exact.all_at` — when all other places are empty, everything is at the one that is left
-/

namespace Custody

variable {κ : Type*} {n : Nat} {place place' : κ → List Nat}

structure Exact (n : Nat) (place : κ → List Nat) : Prop where
  somewhere : ∀ t, t < n ↔ ∃ k, t ∈ place k
  once : ∀ k, (place k).Nodup
  apart : ∀ k k', k ≠ k' → (place k).Disjoint (place k')

theorem exact_zero (h : ∀ k, place k = []) : Exact 0 place where
  somewhere := fun _ => by simp [h]
  once := fun k => by rw [h k]; exact List.nodup_nil
  apart := fun k k' _ => by rw [h k]; exact List.disjoint_nil_left _

/-- Only the places count, not the order at a place. -/
theorem Exact.of_perm (h : Exact n place) (hperm : ∀ k, (place' k).Perm (place k)) :
    Exact n place' where
  somewhere := fun t => (h.somewhere t).trans (exists_congr fun k => (hperm k).mem_iff.symm)
  once := fun k => (hperm k).nodup_iff.mpr (h.once k)
  apart := fun k k' hne _ ht ht' =>
    h.apart k k' hne ((hperm k).mem_iff.mp ht) ((hperm k').mem_iff.mp ht')

theorem Exact.lt (h : Exact n place) {k : κ} {t : Nat} (ht : t ∈ place k) : t < n :=
  (h.somewhere t).mpr ⟨k, ht⟩

/-- What comes in is put at the place `k`. -/
theorem Exact.issue (h : Exact n place) {k : κ} (hk : place' k = place k ++ [n])
    (hother : ∀ x, x ≠ k → place' x = place x) : Exact (n + 1) place' := by
  have hnew : ∀ x, n ∉ place x := fun x hx => Nat.lt_irrefl n (h.lt hx)
  have hmem : ∀ x t, t ∈ place' x ↔ t ∈ place x ∨ (x = k ∧ t = n) := by
    intro x t
    by_cases hx : x = k
    · rw [hx, hk, List.mem_append, List.mem_singleton]
      simp
    · rw [hother x hx]
      simp [hx]
  refine ⟨fun t => ?_, fun x => ?_, fun x y hne t ht ht' => ?_⟩
  · constructor
    · intro ht
      rcases Nat.lt_succ_iff_lt_or_eq.mp ht with ht | rfl
      · obtain ⟨x, hx⟩ := (h.somewhere t).mp ht
        exact ⟨x, (hmem x t).mpr (Or.inl hx)⟩
      · exact ⟨k, (hmem k t).mpr (Or.inr ⟨rfl, rfl⟩)⟩
    · rintro ⟨x, hx⟩
      rcases (hmem x t).mp hx with hx | ⟨-, rfl⟩
      · exact Nat.lt_succ_of_lt (h.lt hx)
      · exact Nat.lt_succ_self _
  · by_cases hx : x = k
    · rw [hx, hk]
      exact List.nodup_append.mpr ⟨h.once k, List.nodup_singleton n, fun t ht u hu htu =>
        hnew k (by rw [← List.mem_singleton.mp hu, ← htu]; exact ht)⟩
    · rw [hother x hx]
      exact h.once x
  · rcases (hmem x t).mp ht with hx | ⟨hx, htn⟩
    · rcases (hmem y t).mp ht' with hy | ⟨-, htn⟩
      · exact h.apart x y hne hx hy
      · exact hnew x (htn ▸ hx)
    · rcases (hmem y t).mp ht' with hy | ⟨hy, -⟩
      · exact hnew y (htn ▸ hy)
      · exact hne (hx.trans hy.symm)

/-- What is taken from the place `k` is put at the place `k'`. -/
theorem Exact.transfer (h : Exact n place) (k k' : κ) (ts : List Nat) (hne : k ≠ k')
    (hk : (place k).Perm (ts ++ place' k)) (hk' : (place' k').Perm (place k' ++ ts))
    (hother : ∀ x, x ≠ k → x ≠ k' → place' x = place x) : Exact n place' := by
  have hfrom : ∀ t, t ∈ place k ↔ t ∈ ts ∨ t ∈ place' k := fun t => by
    rw [hk.mem_iff, List.mem_append]
  have hto : ∀ t, t ∈ place' k' ↔ t ∈ place k' ∨ t ∈ ts := fun t => by
    rw [hk'.mem_iff, List.mem_append]
  have hsplit := List.nodup_append.mp (hk.nodup_iff.mp (h.once k))
  have hts : ∀ x, x ≠ k → ∀ t ∈ ts, t ∉ place x := fun x hx t ht ht' =>
    h.apart k x hx.symm ((hfrom t).mpr (Or.inl ht)) ht'
  -- away from `k'` the places only lose something
  have hsub : ∀ x, x ≠ k' → ∀ t ∈ place' x, t ∈ place x ∧ t ∉ ts := by
    intro x hx t ht
    by_cases hxk : x = k
    · rw [hxk] at ht ⊢
      exact ⟨(hfrom t).mpr (Or.inr ht), fun hin => hsplit.2.2 t hin t ht rfl⟩
    · rw [hother x hxk hx] at ht
      exact ⟨ht, fun hin => hts x hxk t hin ht⟩
  have hapart : ∀ x, x ≠ k' → (place' x).Disjoint (place' k') := by
    intro x hx t ht ht'
    obtain ⟨hxt, hnot⟩ := hsub x hx t ht
    rcases (hto t).mp ht' with ht' | ht'
    · exact h.apart x k' hx hxt ht'
    · exact hnot ht'
  refine ⟨fun t => ?_, fun x => ?_, fun x y hxy => ?_⟩
  · rw [h.somewhere]
    constructor
    · rintro ⟨x, hx⟩
      by_cases hxk : x = k
      · rw [hxk] at hx
        rcases (hfrom t).mp hx with ht | ht
        · exact ⟨k', (hto t).mpr (Or.inr ht)⟩
        · exact ⟨k, ht⟩
      · by_cases hxk' : x = k'
        · exact ⟨k', (hto t).mpr (Or.inl (hxk' ▸ hx))⟩
        · exact ⟨x, by rwa [hother x hxk hxk']⟩
    · rintro ⟨x, hx⟩
      by_cases hxk' : x = k'
      · rw [hxk'] at hx
        rcases (hto t).mp hx with ht | ht
        · exact ⟨k', ht⟩
        · exact ⟨k, (hfrom t).mpr (Or.inl ht)⟩
      · exact ⟨x, (hsub x hxk' t hx).1⟩
  · by_cases hxk' : x = k'
    · rw [hxk', hk'.nodup_iff]
      exact List.nodup_append.mpr ⟨h.once k', hsplit.1, fun t ht u hu htu =>
        hts k' hne.symm u hu (htu ▸ ht)⟩
    · by_cases hxk : x = k
      · rw [hxk]
        exact hsplit.2.1
      · rw [hother x hxk hxk']
        exact h.once x
  · by_cases hx : x = k'
    · rw [hx]
      exact fun t ht ht' => hapart y (fun hy => hxy (hx.trans hy.symm)) ht' ht
    · by_cases hy : y = k'
      · rw [hy]
        exact hapart x hx
      · intro t ht ht'
        exact h.apart x y hxy (hsub x hx t ht).1 (hsub y hy t ht').1

/-- When all other places are empty, everything is at `k`. -/
theorem Exact.all_at (h : Exact n place) {k : κ} (hempty : ∀ x, x ≠ k → place x = []) :
    (place k).Perm (List.range n) := by
  refine (List.perm_ext_iff_of_nodup (h.once k) List.nodup_range).mpr fun t => ?_
  rw [List.mem_range, h.somewhere]
  refine ⟨fun ht => ⟨k, ht⟩, ?_⟩
  rintro ⟨x, hx⟩
  by_cases hxk : x = k
  · exact hxk ▸ hx
  · rw [hempty x hxk] at hx
    exact absurd hx List.not_mem_nil

end Custody
