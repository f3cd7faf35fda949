import Nwchecker.Lib.Machine
import Mathlib.Data.List.Count

/-!
# Deferred release

Objects are added, reported in batches and called while their batch is processed. A removed
object is not released at once: it waits until the batch is done, and a clean-up then releases
what waits.

The discipline is an automaton that reads a log. Along an accepted log nothing is called after
its removal, nothing is released while a batch is processed, and what is removed is released once.
-/

namespace Deferred

open Machine

universe u

/-- What a log notes about objects of type `ο`. -/
inductive Ev (ο : Type u) where
  | add (o : ο)
  | remove (o : ο)
  /-- A batch of objects is reported. -/
  | wait (batch : List ο)
  | call (o : ο)
  /-- The batch is processed, and the clean-up begins. -/
  | done
  | release (o : ο)
  | clean
  deriving DecidableEq

inductive Phase (ο : Type u) where
  | idle
  | batch (reported : List ο)
  | cleaning
  deriving DecidableEq

/-- `added` and `removed` only grow. `waiting` holds what is removed and not released. -/
structure State (ο : Type u) where
  added : List ο
  removed : List ο
  waiting : List ο
  phase : Phase ο

variable {ο : Type u}

def init : State ο where
  added := []
  removed := []
  waiting := []
  phase := .idle

def State.Live (d : State ο) (o : ο) : Prop := o ∈ d.added ∧ o ∉ d.removed

variable [DecidableEq ο]

instance (d : State ο) (o : ο) : Decidable (d.Live o) := inferInstanceAs (Decidable (_ ∧ _))

/-- The discipline. -/
def step (d : State ο) : Ev ο → Option (State ο)
  | .add o =>
    if o ∉ d.added ∧ d.phase ≠ .cleaning then some { d with added := o :: d.added } else none
  | .remove o =>
    if d.Live o ∧ d.phase ≠ .cleaning then
      some { d with removed := o :: d.removed, waiting := d.waiting ++ [o] }
    else none
  | .wait batch =>
    if d.phase = .idle ∧ ∀ o ∈ batch, d.Live o then some { d with phase := .batch batch } else none
  | .call o =>
    match d.phase with
    | .batch reported => if o ∈ reported ∧ d.Live o then some d else none
    | _ => none
  | .done =>
    match d.phase with
    | .batch _ => some { d with phase := .cleaning }
    | _ => none
  | .release o =>
    match d.waiting with
    | x :: rest => if x = o ∧ d.phase = .cleaning then some { d with waiting := rest } else none
    | [] => none
  | .clean =>
    if d.phase = .cleaning ∧ d.waiting = [] then some { d with phase := .idle } else none

variable {d d' : State ο} {o : ο}

/-! ## What each event asks for and does -/

@[simp] theorem step_add : step d (.add o) = some d' ↔
    (o ∉ d.added ∧ d.phase ≠ .cleaning) ∧ { d with added := o :: d.added } = d' := by
  simp [step]

@[simp] theorem step_remove : step d (.remove o) = some d' ↔
    (d.Live o ∧ d.phase ≠ .cleaning) ∧
      { d with removed := o :: d.removed, waiting := d.waiting ++ [o] } = d' := by
  simp [step]

@[simp] theorem step_wait {batch : List ο} : step d (.wait batch) = some d' ↔
    (d.phase = .idle ∧ ∀ o ∈ batch, d.Live o) ∧ { d with phase := .batch batch } = d' := by
  simp [step]

@[simp] theorem step_call : step d (.call o) = some d' ↔
    (∃ reported, d.phase = .batch reported ∧ o ∈ reported) ∧ d.Live o ∧ d = d' := by
  cases h : d.phase with
  | idle => simp [step, h]
  | batch reported => simp [step, h, and_assoc]
  | cleaning => simp [step, h]

@[simp] theorem step_done : step d .done = some d' ↔
    (∃ reported, d.phase = .batch reported) ∧ { d with phase := .cleaning } = d' := by
  cases h : d.phase with
  | idle => simp [step, h]
  | batch reported => simp [step, h]
  | cleaning => simp [step, h]

@[simp] theorem step_release : step d (.release o) = some d' ↔
    d.phase = .cleaning ∧ ∃ rest, d.waiting = o :: rest ∧ { d with waiting := rest } = d' := by
  cases h : d.waiting with
  | nil => simp [step, h]
  | cons x rest =>
    simp only [step, h, Option.ite_none_right_eq_some, Option.some.injEq, List.cons.injEq]
    constructor
    · rintro ⟨⟨rfl, hp⟩, rfl⟩
      exact ⟨hp, rest, ⟨rfl, rfl⟩, rfl⟩
    · rintro ⟨hp, rest', ⟨rfl, rfl⟩, rfl⟩
      exact ⟨⟨rfl, hp⟩, rfl⟩

@[simp] theorem step_clean : step d .clean = some d' ↔
    (d.phase = .cleaning ∧ d.waiting = []) ∧ { d with phase := .idle } = d' := by
  simp [step]

/-! ## Along an accepted log -/

/-- What is removed stays removed, and is neither called nor removed again. -/
theorem step_removed {e : Ev ο} (ho : o ∈ d.removed) (h : step d e = some d') :
    o ∈ d'.removed ∧ e ≠ .call o ∧ e ≠ .remove o := by
  cases e with
  | add x =>
    obtain ⟨-, rfl⟩ := step_add.mp h
    simp [ho]
  | remove x =>
    obtain ⟨⟨hlive, -⟩, rfl⟩ := step_remove.mp h
    refine ⟨List.mem_cons_of_mem _ ho, by simp, ?_⟩
    rintro ⟨⟩
    exact hlive.2 ho
  | wait batch =>
    obtain ⟨-, rfl⟩ := step_wait.mp h
    simp [ho]
  | call x =>
    obtain ⟨-, hlive, rfl⟩ := step_call.mp h
    refine ⟨ho, ?_, by simp⟩
    rintro ⟨⟩
    exact hlive.2 ho
  | done =>
    obtain ⟨-, rfl⟩ := step_done.mp h
    simp [ho]
  | release x =>
    obtain ⟨-, rest, -, rfl⟩ := step_release.mp h
    simp [ho]
  | clean =>
    obtain ⟨-, rfl⟩ := step_clean.mp h
    simp [ho]

theorem replay_removed {log : List (Ev ο)} (ho : o ∈ d.removed) (h : replay step d log = some d') :
    o ∈ d'.removed ∧ .call o ∉ log ∧ .remove o ∉ log := by
  induction log generalizing d with
  | nil =>
    cases h
    simp [ho]
  | cons e log ih =>
    obtain ⟨t, ht, h'⟩ := replay_cons.mp h
    obtain ⟨ho', hcall, hremove⟩ := step_removed ho ht
    obtain ⟨ho'', hcalls, hremoves⟩ := ih ho' h'
    exact ⟨ho'', by simp [hcall.symm, hcalls], by simp [hremove.symm, hremoves]⟩

/-- Only what was added can be removed. -/
theorem removed_added {log : List (Ev ο)} (h : replay step init log = some d)
    (ho : o ∈ d.removed) : o ∈ d.added := by
  refine replay_invariant (P := fun d => ∀ x ∈ d.removed, x ∈ d.added) (I := fun _ => True) ?_
    (fun _ _ => trivial) (by simp [init]) h o ho
  intro d e d' _ hd hstep x hx
  cases e with
  | add y =>
    obtain ⟨-, rfl⟩ := step_add.mp hstep
    exact List.mem_cons_of_mem _ (hd x hx)
  | remove y =>
    obtain ⟨⟨hlive, -⟩, rfl⟩ := step_remove.mp hstep
    rcases List.mem_cons.mp hx with rfl | hx
    · exact hlive.1
    · exact hd x hx
  | wait batch =>
    obtain ⟨-, rfl⟩ := step_wait.mp hstep
    exact hd x hx
  | call y =>
    obtain ⟨-, -, rfl⟩ := step_call.mp hstep
    exact hd x hx
  | done =>
    obtain ⟨-, rfl⟩ := step_done.mp hstep
    exact hd x hx
  | release y =>
    obtain ⟨-, rest, -, rfl⟩ := step_release.mp hstep
    exact hd x hx
  | clean =>
    obtain ⟨-, rfl⟩ := step_clean.mp hstep
    exact hd x hx

/-- Only `done` leads to the clean-up, and only the clean-up releases. -/
theorem step_phase {e : Ev ο} (hp : d.phase ≠ .cleaning) (he : e ≠ .done)
    (h : step d e = some d') : d'.phase ≠ .cleaning ∧ ∀ x, e ≠ .release x := by
  cases e with
  | add x =>
    obtain ⟨-, rfl⟩ := step_add.mp h
    simp [hp]
  | remove x =>
    obtain ⟨-, rfl⟩ := step_remove.mp h
    simp [hp]
  | wait batch =>
    obtain ⟨-, rfl⟩ := step_wait.mp h
    simp
  | call x =>
    obtain ⟨-, -, rfl⟩ := step_call.mp h
    simp [hp]
  | done => exact absurd rfl he
  | release x => exact absurd (step_release.mp h).1 hp
  | clean => exact absurd (step_clean.mp h).1.1 hp

theorem replay_phase {log : List (Ev ο)} (hp : d.phase ≠ .cleaning) (hdone : .done ∉ log)
    (h : replay step d log = some d') : d'.phase ≠ .cleaning ∧ ∀ x, .release x ∉ log := by
  induction log generalizing d with
  | nil =>
    cases h
    simp [hp]
  | cons e log ih =>
    obtain ⟨t, ht, h'⟩ := replay_cons.mp h
    simp only [List.mem_cons, not_or] at hdone
    obtain ⟨hp', hne⟩ := step_phase hp (fun he => hdone.1 he.symm) ht
    obtain ⟨hp'', hnone⟩ := ih hp' hdone.2 h'
    refine ⟨hp'', ?_⟩
    intro x
    simp [(hne x).symm, hnone x]

/-- **Conservation.** What is removed either waits or has been released. -/
theorem step_count (o : ο) {e : Ev ο} (h : step d e = some d') :
    d.waiting.count o + [e].count (.remove o) = d'.waiting.count o + [e].count (.release o) := by
  cases e with
  | add x =>
    obtain ⟨-, rfl⟩ := step_add.mp h
    simp
  | remove x =>
    obtain ⟨-, rfl⟩ := step_remove.mp h
    simp [List.count_append, List.count_singleton]
  | wait batch =>
    obtain ⟨-, rfl⟩ := step_wait.mp h
    simp
  | call x =>
    obtain ⟨-, -, rfl⟩ := step_call.mp h
    simp
  | done =>
    obtain ⟨-, rfl⟩ := step_done.mp h
    simp
  | release x =>
    obtain ⟨-, rest, hw, rfl⟩ := step_release.mp h
    simp [hw, List.count_cons]
  | clean =>
    obtain ⟨-, rfl⟩ := step_clean.mp h
    simp

theorem replay_count (o : ο) {log : List (Ev ο)} (h : replay step d log = some d') :
    d.waiting.count o + log.count (.remove o) = d'.waiting.count o + log.count (.release o) := by
  induction log generalizing d with
  | nil =>
    cases h
    simp
  | cons e log ih =>
    obtain ⟨t, ht, h'⟩ := replay_cons.mp h
    have hfirst := step_count o ht
    have hrest := ih h'
    rw [← List.singleton_append, List.count_append, List.count_append]
    omega

/-- A batch that is being processed was reported, and since then nothing has been released. -/
theorem replay_batch {reported : List ο} {log : List (Ev ο)} {d d' : State ο}
    (h : replay step d log = some d') (hp : d'.phase = .batch reported) :
    (d.phase = .batch reported ∧ .done ∉ log ∧ ∀ x, .release x ∉ log) ∨
      ∃ pre post, log = pre ++ .wait reported :: post ∧ .done ∉ post ∧ ∀ x, .release x ∉ post := by
  induction log generalizing d with
  | nil =>
    cases h
    exact Or.inl ⟨hp, by simp, by simp⟩
  | cons e log ih =>
    obtain ⟨t, ht, h'⟩ := replay_cons.mp h
    rcases ih h' with ⟨hpt, hdone, hrel⟩ | ⟨pre, post, rfl, hdone, hrel⟩
    · -- the first event either reports the batch or is part of it
      cases e with
      | add x =>
        obtain ⟨-, rfl⟩ := step_add.mp ht
        exact Or.inl ⟨hpt, by simp [hdone], by simp [hrel]⟩
      | remove x =>
        obtain ⟨-, rfl⟩ := step_remove.mp ht
        exact Or.inl ⟨hpt, by simp [hdone], by simp [hrel]⟩
      | wait batch =>
        obtain ⟨-, rfl⟩ := step_wait.mp ht
        cases hpt
        exact Or.inr ⟨[], log, rfl, hdone, hrel⟩
      | call x =>
        obtain ⟨-, -, rfl⟩ := step_call.mp ht
        exact Or.inl ⟨hpt, by simp [hdone], by simp [hrel]⟩
      | done =>
        obtain ⟨-, rfl⟩ := step_done.mp ht
        cases hpt
      | release x =>
        obtain ⟨hc, rest, -, rfl⟩ := step_release.mp ht
        rw [hc] at hpt
        cases hpt
      | clean =>
        obtain ⟨-, rfl⟩ := step_clean.mp ht
        cases hpt
    · exact Or.inr ⟨e :: pre, post, rfl, hdone, hrel⟩

/-! ## What an accepted log is worth -/

/-- The discipline in the terms of the log alone. -/
structure Disciplined (log : List (Ev ο)) : Prop where
  /-- Nothing is called, or removed once more, after its removal. -/
  silent : ∀ pre o post, log = pre ++ .remove o :: post → .call o ∉ post ∧ .remove o ∉ post
  /-- What is called is in the latest batch, and since then nothing has been released. -/
  current : ∀ pre o post, log = pre ++ .call o :: post →
    ∃ front batch back, pre = front ++ .wait batch :: back ∧ o ∈ batch ∧
      .done ∉ back ∧ ∀ x, .release x ∉ back
  /-- Nothing is released before the batch is processed. -/
  whole : ∀ pre batch mid post, log = pre ++ .wait batch :: (mid ++ post) → .done ∉ mid →
    ∀ x, .release x ∉ mid
  /-- After a removal nothing is released until the next batch is processed. -/
  deferred : ∀ pre o mid post, log = pre ++ .remove o :: (mid ++ post) → .done ∉ mid →
    ∀ x, .release x ∉ mid
  /-- Only what was removed is released. -/
  owed : ∀ pre o post, log = pre ++ .release o :: post → .remove o ∈ pre
  /-- Whatever clean-up ends after a removal, the object has been released by then, and it is
  released only once. -/
  once : ∀ pre o mid post, log = pre ++ .remove o :: (mid ++ .clean :: post) →
    mid.count (.release o) = 1 ∧ log.count (.release o) = 1

section
variable {log pre mid post : List (Ev ο)}

/-- An accepted log is cut at one of its events. -/
theorem replay_split {d₀ : State ο} {e : Ev ο} (h : replay step d₀ (pre ++ e :: post) = some d) :
    ∃ t u, replay step d₀ pre = some t ∧ step t e = some u ∧ replay step u post = some d := by
  obtain ⟨t, ht, h'⟩ := replay_append.mp h
  obtain ⟨u, hu, hpost⟩ := replay_cons.mp h'
  exact ⟨t, u, ht, hu, hpost⟩

theorem silent_of_accepted (h : replay step init (pre ++ .remove o :: post) = some d) :
    .call o ∉ post ∧ .remove o ∉ post := by
  obtain ⟨t, u, -, hu, hpost⟩ := replay_split h
  obtain ⟨-, rfl⟩ := step_remove.mp hu
  exact (replay_removed List.mem_cons_self hpost).2

/-- No object is removed twice. -/
theorem count_remove (h : replay step init (pre ++ .remove o :: post) = some d) :
    pre.count (.remove o) = 0 ∧ post.count (.remove o) = 0 := by
  refine ⟨?_, List.count_eq_zero.mpr (silent_of_accepted h).2⟩
  rw [List.count_eq_zero]
  intro hmem
  obtain ⟨front, back, rfl⟩ := List.mem_iff_append.mp hmem
  rw [List.append_assoc, List.cons_append] at h
  exact (silent_of_accepted h).2 (by simp)

/-- At most what has been removed has been released. -/
theorem count_release_le (h : replay step init log = some d) :
    log.count (.release o) ≤ log.count (.remove o) := by
  have hcount := replay_count o h
  simp only [init, List.count_nil] at hcount
  omega

/-- At the end of a clean-up it is all of it. -/
theorem count_release_eq (h : replay step init (log ++ .clean :: post) = some d) :
    log.count (.release o) = log.count (.remove o) := by
  obtain ⟨t, u, ht, hu, -⟩ := replay_split h
  obtain ⟨⟨-, hempty⟩, -⟩ := step_clean.mp hu
  have hcount := replay_count o ht
  simp only [init, hempty, List.count_nil] at hcount
  omega

theorem once_of_accepted
    (h : replay step init (pre ++ .remove o :: (mid ++ .clean :: post)) = some d) :
    mid.count (.release o) = 1 ∧
      (pre ++ .remove o :: (mid ++ .clean :: post)).count (.release o) = 1 := by
  obtain ⟨hpre, hrest⟩ := count_remove h
  obtain ⟨t, -, ht, -⟩ := replay_split h
  have hbefore := count_release_le (o := o) ht
  have hall := count_release_le (o := o) h
  have hclean := h
  rw [← List.cons_append, ← List.append_assoc] at hclean
  have hend := count_release_eq (o := o) hclean
  simp only [List.count_append, List.count_cons, reduceCtorEq, beq_iff_eq, beq_self_eq_true,
    if_true, if_false] at hrest hall hend ⊢
  omega

/-- **The automaton is sound.** -/
theorem disciplined_of_accepted (h : replay step init log = some d) : Disciplined log where
  silent := by
    rintro pre o post rfl
    exact silent_of_accepted h
  current := by
    rintro pre o post rfl
    obtain ⟨t, u, hpre, hu, -⟩ := replay_split h
    obtain ⟨⟨reported, hp, ho⟩, -⟩ := step_call.mp hu
    rcases replay_batch hpre hp with ⟨hinit, -⟩ | ⟨front, back, hsplit, hdone, hrel⟩
    · cases hinit
    · exact ⟨front, reported, back, hsplit, ho, hdone, hrel⟩
  whole := by
    rintro pre batch mid post rfl hdone
    obtain ⟨t, u, -, hu, hrest⟩ := replay_split h
    obtain ⟨v, hmid, -⟩ := replay_append.mp hrest
    obtain ⟨-, rfl⟩ := step_wait.mp hu
    exact (replay_phase (by simp) hdone hmid).2
  deferred := by
    rintro pre o mid post rfl hdone
    obtain ⟨t, u, -, hu, hrest⟩ := replay_split h
    obtain ⟨v, hmid, -⟩ := replay_append.mp hrest
    obtain ⟨⟨-, hp⟩, rfl⟩ := step_remove.mp hu
    exact (replay_phase (by exact hp) hdone hmid).2
  owed := by
    rintro pre o post rfl
    obtain ⟨t, u, hpre, hu, -⟩ := replay_split h
    obtain ⟨-, rest, hwaiting, -⟩ := step_release.mp hu
    have hcount := replay_count o hpre
    rw [hwaiting, List.count_cons_self] at hcount
    simp only [init, List.count_nil] at hcount
    exact List.count_pos_iff.mp (by omega)
  once := by
    rintro pre o mid post rfl
    exact once_of_accepted h

end

end Deferred
