import Mathlib.Data.List.Basic
import Mathlib.Data.List.Infix

/-!
# Lifetimes of objects

A program that works on objects of a store leaves a log of accesses: it reads and writes fields
and releases objects. The log is safe when nothing happens to an object after its release.
-/

namespace Lifetime

universe u v

/-- One access to an object of type `ο`; `φ` names the fields. -/
inductive Access (ο : Type u) (φ : Type v) where
  | read (o : ο) (f : φ)
  | write (o : ο) (f : φ)
  | release (o : ο)

variable {ο : Type u} {φ : Type v}

/-- The object that is accessed. -/
def Access.obj : Access ο φ → ο
  | .read o _ => o
  | .write o _ => o
  | .release o => o

/-- The access ends the life of the object `o`. -/
def Access.Ends (a : Access ο φ) (o : ο) : Prop := a = .release o

/-- No object is accessed after its release. -/
def Safe (log : List (Access ο φ)) : Prop :=
  log.Pairwise fun a b => ¬a.Ends b.obj

/-- Nothing is released. -/
def NoRelease (log : List (Access ο φ)) : Prop := ∀ a ∈ log, ∀ o, a ≠ .release o

variable {l l' : List (Access ο φ)}

@[simp] theorem noRelease_nil : NoRelease ([] : List (Access ο φ)) :=
  fun _ h => absurd h List.not_mem_nil

@[simp] theorem noRelease_append : NoRelease (l ++ l') ↔ NoRelease l ∧ NoRelease l' := by
  simp only [NoRelease, List.mem_append]
  constructor
  · intro h
    exact ⟨fun a ha => h a (Or.inl ha), fun a ha => h a (Or.inr ha)⟩
  · rintro ⟨h, h'⟩ a (ha | ha)
    · exact h a ha
    · exact h' a ha

@[simp] theorem noRelease_read {o : ο} {f : φ} : NoRelease (.read o f :: l) ↔ NoRelease l := by
  simp [NoRelease]

@[simp] theorem noRelease_write {o : ο} {f : φ} : NoRelease (.write o f :: l) ↔ NoRelease l := by
  simp [NoRelease]

/-- Where nothing is released everything is allowed, up to one release at the very end. -/
theorem safe_concat {a : Access ο φ} (h : NoRelease l) : Safe (l ++ [a]) := by
  refine List.pairwise_append.mpr ⟨?_, List.pairwise_singleton _ _, fun b hb c _ he => h b hb _ he⟩
  exact List.Pairwise.imp_of_mem (fun {b _} hb _ _ he => h b hb _ he) (List.pairwise_of_forall
    (fun _ _ => trivial) : l.Pairwise fun _ _ => True)

/-- An access behind the release of its object is one too many. -/
theorem not_safe_of_sublist {o : ο} {a : Access ο φ} (ho : a.obj = o)
    (h : List.Sublist [.release o, a] l) : ¬Safe l := by
  intro hs
  have hpair := List.Pairwise.sublist h hs
  rw [List.pairwise_pair, ho] at hpair
  exact hpair rfl

end Lifetime
