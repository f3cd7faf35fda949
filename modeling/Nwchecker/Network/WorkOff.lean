import Nwchecker.Lib.Progress
import Nwchecker.Network.IOThread

/-!
# The queue is worked off

`no_event_lost` keeps the events; here the worker gets to them. When no other thread is inside
`addListener`, it needs no key and no further wakeup: it processes all events in the order in which
they were offered, in a number of statements that `togo` bounds, and blocks.
-/

namespace Nwchecker.Network

open Machine

namespace IOThread

variable {α ι : Type}

/-- The statements up to the point where the worker blocks on the empty queue. -/
def togo (s : IOThread α ι) : Nat :=
  let rest := 4 * s.listener.length + 3 * s.woken.toNat
  match s.pc with
  | .testing => rest + 2
  | .polling => rest + 1
  | .polled => rest + 4
  | .processing => rest + 3
  | .handling => rest + 3
  | .selecting => rest + 1
  | .blocked => rest
  | .dead => 0

/-- Nobody is between the two statements of `addListener`. -/
structure Settled (s : IOThread α ι) (offered : List α) : Prop where
  inv : s.Inv
  quiet : ∀ c, s.adding c = false
  offered : s.offered = offered

/-- The worker waits, and there is nothing to be done. -/
def Idle (s : IOThread α ι) : Prop := s.pc = .blocked ∧ s.listener = []

variable {s t : IOThread α ι} {offered : List α}

/-- A worker that may block finds an empty queue, unless a wakeup is pending. -/
theorem Settled.woken (h : s.Settled offered) (hpc : s.pc = .selecting ∨ s.pc = .blocked)
    (hne : s.listener ≠ []) : s.woken = true := by
  rcases h.inv.heard hpc hne with hwoken | ⟨c, hc⟩
  · exact hwoken
  · rw [h.quiet c] at hc
    cases hc

theorem advance_same (h : s.advance false = some t) :
    t.adding = s.adding ∧ t.offered = s.offered := by
  unfold advance at h
  split at h
  · cases h
    exact ⟨rfl, rfl⟩
  · cases h
    exact ⟨rfl, rfl⟩
  · split at h
    · cases h
      exact ⟨rfl, rfl⟩
    · cases h
      exact ⟨rfl, rfl⟩
  · cases h
    exact ⟨rfl, rfl⟩
  · split at h
    · cases h
      exact ⟨rfl, rfl⟩
    · cases h
      exact ⟨rfl, rfl⟩
  · split at h
    · cases h
      exact ⟨rfl, rfl⟩
    · cases h
  · cases h
    exact ⟨rfl, rfl⟩
  · cases h

/-- Every statement brings the worker closer. -/
theorem Settled.closer (h : s.Settled offered) :
    s.Idle ∨ ∃ t, s.advance false = some t ∧ t.togo < s.togo := by
  unfold advance
  cases hpc : s.pc with
  | testing =>
    refine Or.inr ⟨_, rfl, ?_⟩
    cases hempty : s.listener.isEmpty with
    | true =>
      simp only [togo, hpc, if_true]
      omega
    | false =>
      simp only [togo, hpc, Bool.false_eq_true, if_false]
      omega
  | polling =>
    refine Or.inr ⟨_, rfl, ?_⟩
    have hpos := List.length_pos_iff.mpr (h.inv.filled hpc)
    simp only [togo, hpc, List.length_tail]
    omega
  | polled =>
    cases he : s.e with
    | none => exact absurd he (h.inv.taken hpc)
    | some e =>
      refine Or.inr ⟨_, rfl, ?_⟩
      simp only [togo, hpc]
      omega
  | processing =>
    refine Or.inr ⟨_, rfl, ?_⟩
    simp only [togo, hpc]
    omega
  | selecting =>
    cases hwoken : s.woken with
    | true =>
      refine Or.inr ⟨_, rfl, ?_⟩
      simp only [togo, hpc, hwoken, selected, Bool.toNat_true, Bool.toNat_false,
        Bool.false_eq_true, if_false]
      omega
    | false =>
      refine Or.inr ⟨_, rfl, ?_⟩
      simp only [togo, hpc, hwoken, Bool.toNat_false]
      omega
  | blocked =>
    by_cases hempty : s.listener = []
    · exact Or.inl ⟨hpc, hempty⟩
    · have hwoken := h.woken (Or.inr hpc) hempty
      refine Or.inr ⟨_, by rw [hwoken]; rfl, ?_⟩
      simp only [togo, hpc, hwoken, selected, Bool.toNat_true, Bool.toNat_false,
        Bool.false_eq_true, if_false]
      omega
  | handling =>
    refine Or.inr ⟨_, rfl, ?_⟩
    simp only [togo, hpc]
    omega
  | dead => exact absurd hpc h.inv.alive

variable [DecidableEq ι]

/--
**A worker that is left alone works the queue off.**

From every reachable state in which no thread is inside `addListener`: the worker processes all that
has been offered, in that order, within `togo` statements.
-/
theorem works_off {es : List (Event α ι)} (h : replay step start es = some s)
    (hquiet : ∀ c, s.adding c = false) : ∃ n t, n ≤ s.togo ∧
      replay step s (List.replicate n (.advance false)) = some t ∧ t.pc = .blocked ∧
        t.listener = [] ∧ t.processed = s.offered := by
  have hsettled : s.Settled s.offered := ⟨inv_replay h, hquiet, rfl⟩
  have hprogress : ∀ u : IOThread α ι, u.Settled s.offered → u.Idle ∨ ∃ e v, e = .advance false ∧
      u.step e = some v ∧ v.Settled s.offered ∧ v.togo < u.togo := by
    intro u hu
    rcases hu.closer with hidle | ⟨v, hv, hlt⟩
    · exact Or.inl hidle
    · have hstep : u.step (.advance false) = some v := (if_pos (hu.quiet .worker)).trans hv
      obtain ⟨hadding, hoffered⟩ := advance_same hv
      exact Or.inr ⟨_, v, rfl, hstep, ⟨hu.inv.step hstep, hadding ▸ hu.quiet,
        hoffered.trans hu.offered⟩, hlt⟩
  obtain ⟨fs, t, hlen, hfs, hrun, ht, hpc, hempty⟩ := replay_progress togo hprogress hsettled
  refine ⟨fs.length, t, hlen, ?_, hpc, hempty, ?_⟩
  · rw [← List.eq_replicate_iff.mpr ⟨rfl, hfs⟩]
    exact hrun
  · have hfifo := ht.inv.fifo
    rw [hempty, inHand_of_ne (by rw [hpc]; decide), List.append_nil, List.append_nil,
      ht.offered] at hfifo
    exact hfifo

/-- The two events of `lateOffer`, when the other thread has woken the worker up as well. -/
theorem lateOffer_worksOff : ∃ s : IOThread Nat Bool,
    replay step start (lateOffer ++ [.wakeup (.other false)]) = some s ∧ s.pc = .blocked ∧
      ∃ n t, n ≤ s.togo ∧ replay step s (List.replicate n (.advance false)) = some t ∧
        t.pc = .blocked ∧ t.listener = [] ∧ t.processed = [7, 8] := by
  have hrun : replay step start (lateOffer ++ [.wakeup (.other false)])
      = some (_ : IOThread Nat Bool) := rfl
  refine ⟨_, hrun, rfl, works_off hrun fun c => ?_⟩
  cases c with
  | worker => rfl
  | other i => cases i <;> rfl

end IOThread

end Nwchecker.Network
