import Nwchecker.Lib.Machine

/-!
# Progress

A machine that can always make a step towards its goal gets there: `replay_progress`. `I` says which
events are called for, so that the machine does not get there by help from outside.
-/

namespace Machine

universe u v

variable {σ : Type u} {ι : Type v} {step : σ → ι → Option σ}

/-- **The progress rule.** The events are no more than `size` says. -/
theorem replay_progress {P Done : σ → Prop} {I : ι → Prop} (size : σ → Nat)
    (hprogress : ∀ s, P s → Done s ∨ ∃ e t, I e ∧ step s e = some t ∧ P t ∧ size t < size s)
    {s : σ} (hs : P s) :
    ∃ es t, es.length ≤ size s ∧ (∀ e ∈ es, I e) ∧ replay step s es = some t ∧ P t ∧ Done t := by
  induction hn : size s using Nat.strongRecOn generalizing s with
  | _ n ih =>
    rcases hprogress s hs with hdone | ⟨e, t, he, hstep, ht, hlt⟩
    · exact ⟨[], s, Nat.zero_le _, fun _ h => absurd h List.not_mem_nil, rfl, hs, hdone⟩
    · obtain ⟨es, u, hlen, hes, hrun, hu, hdone⟩ := ih (size t) (hn ▸ hlt) ht rfl
      refine ⟨e :: es, u, ?_, List.forall_mem_cons.mpr ⟨he, hes⟩, replay_cons.mpr ⟨t, hstep, hrun⟩,
        hu, hdone⟩
      rw [List.length_cons]
      omega

end Machine
