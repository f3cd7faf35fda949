import Mathlib.Logic.Basic
import Mathlib.Data.List.Basic

/-!
# Guarded machines

A machine is an executable step function: `step s e` is `some s'` when the event `e` can happen
in the state `s`, and `none` when it cannot. `replay` runs a list of events, so a run is given by
its events alone and every prefix of a run is a run.
-/

namespace Machine

universe u v

variable {σ : Type u} {ι : Type v} {step : σ → ι → Option σ}

/-- Run the events one after the other; `none` when one of them cannot happen. -/
def replay (step : σ → ι → Option σ) : σ → List ι → Option σ
  | s, [] => some s
  | s, e :: es =>
    match step s e with
    | some s' => replay step s' es
    | none => none

@[simp] theorem replay_nil (s : σ) : replay step s [] = some s := rfl

theorem replay_cons {s s' : σ} {e : ι} {es : List ι} :
    replay step s (e :: es) = some s' ↔ ∃ t, step s e = some t ∧ replay step t es = some s' := by
  show (match step s e with
    | some t => replay step t es
    | none => none) = some s' ↔ _
  cases step s e with
  | some t => simp only [Option.some.injEq, exists_eq_left']
  | none => simp only [reduceCtorEq, false_and, exists_false]

theorem replay_append {es fs : List ι} {s s' : σ} : replay step s (es ++ fs) = some s' ↔
    ∃ t, replay step s es = some t ∧ replay step t fs = some s' := by
  induction es generalizing s with
  | nil => simp
  | cons e es ih =>
    rw [List.cons_append, replay_cons]
    constructor
    · rintro ⟨t, ht, h⟩
      obtain ⟨u, hu, h'⟩ := ih.mp h
      exact ⟨u, replay_cons.mpr ⟨t, ht, hu⟩, h'⟩
    · rintro ⟨u, hu, h'⟩
      obtain ⟨t, ht, h⟩ := replay_cons.mp hu
      exact ⟨t, ht, ih.mpr ⟨u, h, h'⟩⟩

theorem replay_concat {es : List ι} {e : ι} {s s' : σ} :
    replay step s (es ++ [e]) = some s' ↔
      ∃ t, replay step s es = some t ∧ step t e = some s' := by
  rw [replay_append]
  constructor
  · rintro ⟨t, ht, h⟩
    obtain ⟨u, hu, h'⟩ := replay_cons.mp h
    cases h'
    exact ⟨t, ht, hu⟩
  · rintro ⟨t, ht, h⟩
    exact ⟨t, ht, replay_cons.mpr ⟨s', h, rfl⟩⟩

/-- Without guards every list of events is a run. -/
theorem replay_total (htotal : ∀ s e, ∃ t, step s e = some t) (es : List ι) (s : σ) :
    ∃ t, replay step s es = some t := by
  induction es generalizing s with
  | nil => exact ⟨s, rfl⟩
  | cons e es ih =>
    obtain ⟨t, ht⟩ := htotal s e
    obtain ⟨u, hu⟩ := ih t
    exact ⟨u, replay_cons.mpr ⟨t, ht, hu⟩⟩

/--
**The invariant rule.**

What holds at the start and is kept by every step of the run holds at its end. `I` restricts the
events of the run, and may be `fun _ => True`.
-/
theorem replay_invariant {P : σ → Prop} {I : ι → Prop}
    (hstep : ∀ s e s', I e → P s → step s e = some s' → P s') {es : List ι} {s s' : σ}
    (hI : ∀ e ∈ es, I e) (hs : P s) (h : replay step s es = some s') : P s' := by
  induction es generalizing s with
  | nil =>
    cases h
    exact hs
  | cons e es ih =>
    obtain ⟨t, ht, h'⟩ := replay_cons.mp h
    have hnext : P t := hstep s e t (hI e List.mem_cons_self) hs ht
    exact ih (fun x hx => hI x (List.mem_cons_of_mem _ hx)) hnext h'

/-- The states along a run: what the events done so far lead to. -/
def Visits (step : σ → ι → Option σ) (s : σ) (es : List ι) (t : σ) : Prop :=
  ∃ ds, ds <+: es ∧ replay step s ds = some t

/-- Every event of the run is `Good` in the state in which it happens. -/
def Along (step : σ → ι → Option σ) (s : σ) (es : List ι) (Good : σ → ι → Prop) : Prop :=
  ∀ ds e t, ds ++ [e] <+: es → replay step s ds = some t → Good t e

theorem visits_cons {s t : σ} {e : ι} {es : List ι} (h : step s e = some t) {u : σ} :
    Visits step s (e :: es) u ↔ u = s ∨ Visits step t es u := by
  constructor
  · rintro ⟨ds, hds, hu⟩
    cases ds with
    | nil =>
      cases hu
      exact Or.inl rfl
    | cons d ds =>
      obtain ⟨rfl, hds'⟩ := List.cons_prefix_cons.mp hds
      obtain ⟨t', ht', hu'⟩ := replay_cons.mp hu
      rw [h] at ht'
      cases ht'
      exact Or.inr ⟨ds, hds', hu'⟩
  · rintro (rfl | ⟨ds, hds, hu⟩)
    · exact ⟨[], List.nil_prefix, rfl⟩
    · exact ⟨e :: ds, List.cons_prefix_cons.mpr ⟨rfl, hds⟩, replay_cons.mpr ⟨t, h, hu⟩⟩

theorem along_cons {s t : σ} {e : ι} {es : List ι} (h : step s e = some t) {Good : σ → ι → Prop} :
    Along step s (e :: es) Good ↔ Good s e ∧ Along step t es Good := by
  constructor
  · intro hall
    refine ⟨hall [] e s (List.cons_prefix_cons.mpr ⟨rfl, List.nil_prefix⟩) rfl, ?_⟩
    intro ds d u hds hu
    exact hall (e :: ds) d u (List.cons_prefix_cons.mpr ⟨rfl, hds⟩) (replay_cons.mpr ⟨t, h, hu⟩)
  · rintro ⟨hgood, hall⟩ ds d u hds hu
    cases ds with
    | nil =>
      cases hu
      rw [(List.cons_prefix_cons.mp hds).1]
      exact hgood
    | cons d' ds =>
      obtain ⟨rfl, hds'⟩ := List.cons_prefix_cons.mp hds
      obtain ⟨t', ht', hu'⟩ := replay_cons.mp hu
      rw [h] at ht'
      cases ht'
      exact hall ds d u hds' hu'

/-- An event that cannot happen ends the run. -/
theorem along_cons_none {s : σ} {e : ι} {es : List ι} (h : step s e = none) {Good : σ → ι → Prop} :
    Along step s (e :: es) Good ↔ Good s e := by
  constructor
  · intro hall
    exact hall [] e s (List.cons_prefix_cons.mpr ⟨rfl, List.nil_prefix⟩) rfl
  · intro hgood ds d u hds hu
    cases ds with
    | nil =>
      cases hu
      rw [(List.cons_prefix_cons.mp hds).1]
      exact hgood
    | cons d' ds =>
      obtain ⟨rfl, -⟩ := List.cons_prefix_cons.mp hds
      obtain ⟨t, ht, -⟩ := replay_cons.mp hu
      rw [h] at ht
      cases ht

theorem along_nil (s : σ) (Good : σ → ι → Prop) : Along step s [] Good := by
  intro ds e t hds
  exact absurd hds.length_le (by simp)

/-- A condition on the events alone. -/
theorem along_events {G : ι → Prop} {es : List ι} {s s' : σ} (h : replay step s es = some s') :
    Along step s es (fun _ e => G e) ↔ ∀ e ∈ es, G e := by
  induction es generalizing s with
  | nil =>
    simp only [List.not_mem_nil, false_implies, implies_true, iff_true]
    exact along_nil s _
  | cons e es ih =>
    obtain ⟨t, ht, h'⟩ := replay_cons.mp h
    rw [along_cons ht, ih h', List.forall_mem_cons]

/-- A concrete run can be checked event by event. -/
instance decidableAlong {Good : σ → ι → Prop} [∀ s e, Decidable (Good s e)] :
    ∀ (es : List ι) (s : σ), Decidable (Along step s es Good)
  | [], s => isTrue (along_nil s Good)
  | e :: es, s =>
    match h : step s e with
    | some t =>
      have : Decidable (Along step t es Good) := decidableAlong es t
      decidable_of_iff (Good s e ∧ Along step t es Good) (along_cons h).symm
    | none => decidable_of_iff (Good s e) (along_cons_none h).symm

/-- An invariant that good events keep holds at the end of a run whose events are all good. -/
theorem along_invariant {P : σ → Prop} {Good : σ → ι → Prop}
    (hstep : ∀ s e t, P s → Good s e → step s e = some t → P t) {es : List ι} {s s' : σ} (hs : P s)
    (hrun : replay step s es = some s') (hall : Along step s es Good) : P s' := by
  induction es generalizing s with
  | nil =>
    cases hrun
    exact hs
  | cons e es ih =>
    obtain ⟨t, ht, hrest⟩ := replay_cons.mp hrun
    obtain ⟨hge, hall'⟩ := (along_cons ht).mp hall
    exact ih (hstep s e t hs hge ht) hrest hall'

/-- It holds in every state on the way. -/
theorem visits_invariant {P : σ → Prop} {Good : σ → ι → Prop}
    (hstep : ∀ s e t, P s → Good s e → step s e = some t → P t) {es : List ι} {s t : σ} (hs : P s)
    (hall : Along step s es Good) (hvisit : Visits step s es t) : P t := by
  obtain ⟨ds, hds, hrun⟩ := hvisit
  exact along_invariant hstep hs hrun fun ds' e u hds' hu => hall ds' e u (hds'.trans hds) hu

/--
**The rule for an exact condition.**

When the invariant goes with good events only, and an event that is not good leads out of `P`, then
`P` holds all along a run exactly when all its events are good.
-/
theorem exact_rule {Inv P : σ → Prop} {Good : σ → ι → Prop} (hP : ∀ s, Inv s → P s)
    (hgood : ∀ s e t, Inv s → Good s e → step s e = some t → Inv t)
    (hbad : ∀ s e t, Inv s → ¬Good s e → step s e = some t → ¬P t) {es : List ι} {s s' : σ}
    (hs : Inv s) (hrun : replay step s es = some s') :
    (∀ t, Visits step s es t → P t) ↔ Along step s es Good := by
  induction es generalizing s with
  | nil =>
    refine ⟨fun _ => along_nil s Good, fun _ t => ?_⟩
    · rintro ⟨ds, hds, ht⟩
      rw [List.prefix_nil.mp hds] at ht
      cases ht
      exact hP s hs
  | cons e es ih =>
    obtain ⟨t, ht, hrest⟩ := replay_cons.mp hrun
    rw [along_cons ht]
    simp only [visits_cons ht]
    constructor
    · intro hall
      have hge : Good s e := by
        by_contra hne
        exact hbad s e t hs hne ht (hall t (Or.inr ⟨[], List.nil_prefix, rfl⟩))
      exact ⟨hge, (ih (hgood s e t hs hge ht) hrest).mp fun u hu => hall u (Or.inr hu)⟩
    · rintro ⟨hge, hall⟩ u (rfl | hu)
      · exact hP u hs
      · exact (ih (hgood s e t hs hge ht) hrest).mpr hall u hu

/-! ## History variables -/

/-- What a run makes of `g`. `note` sees every step, and no step sees what it makes. -/
def history {γ : Type*} (step : σ → ι → Option σ) (note : σ → ι → γ → γ) : γ → σ → List ι → γ
  | g, _, [] => g
  | g, s, e :: es =>
    match step s e with
    | some t => history step note (note s e g) t es
    | none => g

theorem history_cons {γ : Type*} {note : σ → ι → γ → γ} {s t : σ} {e : ι} (h : step s e = some t)
    (g : γ) (es : List ι) :
    history step note g s (e :: es) = history step note (note s e g) t es := by
  simp only [history, h]

/-- What every step keeps of the state and the history holds at the end of a run. -/
theorem history_invariant {γ : Type*} {note : σ → ι → γ → γ} {P : σ → γ → Prop}
    (hstep : ∀ s e t g, P s g → step s e = some t → P t (note s e g)) {es : List ι} {s s' : σ}
    {g : γ} (hs : P s g) (hrun : replay step s es = some s') :
    P s' (history step note g s es) := by
  induction es generalizing s g with
  | nil =>
    cases hrun
    exact hs
  | cons e es ih =>
    obtain ⟨t, ht, hrest⟩ := replay_cons.mp hrun
    rw [history_cons ht]
    exact ih (hstep s e t g hs ht) hrest

/-! ## Logs -/

/-- An element in front of the last one of a list, or the last one itself. -/
theorem split_last {α : Type*} {l pre post : List α} {m last : α}
    (h : l ++ [last] = pre ++ m :: post) :
    (m = last ∧ post = []) ∨ ∃ post', l = pre ++ m :: post' := by
  rcases List.append_eq_append_iff.mp h with ⟨mid, -, h'⟩ | ⟨mid, h', h''⟩
  · left
    cases mid with
    | nil => simpa [eq_comm] using h'
    | cons x mid => simp at h'
  · cases mid with
    | nil =>
      left
      simpa using h''
    | cons x mid =>
      right
      rw [List.cons_append, List.cons.injEq] at h''
      exact ⟨mid, by rw [h', h''.1]⟩

end Machine
