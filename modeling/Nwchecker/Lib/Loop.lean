import Mathlib.Logic.Basic
import Mathlib.Data.List.Basic

/-!
# Loops left by a `break`

A `while (1)` loop is a body that either goes round again with a new state or leaves with a
result. Each pass reads one input, which stands for whatever the outside world answers during
that pass. A list of inputs is therefore a finite piece of a run, and a stream of inputs is a
whole run.

* `passes` — run the body along a list of inputs
* `passes_rule` — the invariant rule, for the loop head and for the exits at once
* `passes_range_rule` — the same for a loop that counts
* `passes_leaves` — enough inputs are enough, when a measure decreases
* `LeavesWith` — along a stream of inputs the loop leaves after finitely many passes
* `not_leaves_of_stuck` — a head that leads back to itself is never left
-/

namespace Loop

universe u v w

/-- One pass through a loop body: go round again, or leave with a result. -/
inductive Flow (σ : Type u) (ρ : Type v) where
  | again (s : σ)
  | leave (r : ρ)

variable {σ : Type u} {ρ : Type v} {ι : Type w} {body : ι → σ → Flow σ ρ}

/-- What is to be shown of both ways out of a body, where it goes round again. -/
theorem Flow.at_again {P : σ → Prop} {Q : ρ → Prop} {s : σ} (h : P s) :
    (∀ s', (Flow.again s : Flow σ ρ) = .again s' → P s') ∧
      ∀ r, (Flow.again s : Flow σ ρ) = .leave r → Q r := by
  refine ⟨fun s' h' => ?_, fun r h' => ?_⟩
  · cases h'
    exact h
  · cases h'

/-- And where it leaves. -/
theorem Flow.at_leave {P : σ → Prop} {Q : ρ → Prop} {r : ρ} (h : Q r) :
    (∀ s', (Flow.leave r : Flow σ ρ) = .again s' → P s') ∧
      ∀ r', (Flow.leave r : Flow σ ρ) = .leave r' → Q r' := by
  refine ⟨fun s' h' => ?_, fun r' h' => ?_⟩
  · cases h'
  · cases h'
    exact h

/-- Run the body along a list of inputs, one input a pass. -/
def passes (body : ι → σ → Flow σ ρ) : List ι → σ → Flow σ ρ
  | [], s => .again s
  | i :: is, s =>
    match body i s with
    | .again s' => passes body is s'
    | .leave r => .leave r

@[simp] theorem passes_nil (s : σ) : passes body [] s = .again s := rfl

theorem passes_cons_again {i : ι} {s s' : σ} (h : body i s = .again s') (is : List ι) :
    passes body (i :: is) s = passes body is s' := by
  rw [passes, h]

theorem passes_cons_leave {i : ι} {s : σ} {r : ρ} (h : body i s = .leave r) (is : List ι) :
    passes body (i :: is) s = .leave r := by
  rw [passes, h]

/-- Passes compose: a loop which is still going carries on from where it is. -/
theorem passes_append_again (is js : List ι) {s s' : σ} (h : passes body is s = .again s') :
    passes body (is ++ js) s = passes body js s' := by
  induction is generalizing s with
  | nil =>
    cases h
    rfl
  | cons i is ih =>
    cases hb : body i s with
    | again t =>
      rw [passes_cons_again hb] at h
      rw [List.cons_append, passes_cons_again hb]
      exact ih h
    | leave r =>
      rw [passes_cons_leave hb] at h
      cases h

/-- A loop that has left does not look at the inputs that follow. -/
theorem passes_append_leave (is js : List ι) {s : σ} {r : ρ} (h : passes body is s = .leave r) :
    passes body (is ++ js) s = .leave r := by
  induction is generalizing s with
  | nil => cases h
  | cons i is ih =>
    cases hb : body i s with
    | again t =>
      rw [passes_cons_again hb] at h
      rw [List.cons_append, passes_cons_again hb]
      exact ih h
    | leave r' =>
      rw [passes_cons_leave hb] at h
      rw [List.cons_append, passes_cons_leave hb, h]

/--
**The invariant rule.**

`P` holds at the loop head and `Q` at the exits, whenever one pass from a head where `P` holds
keeps `P` or leaves with `Q`. The inputs may be restricted by `I`.
-/
theorem passes_rule {P : σ → Prop} {Q : ρ → Prop} {I : ι → Prop}
    (hagain : ∀ i s s', I i → P s → body i s = .again s' → P s')
    (hleave : ∀ i s r, I i → P s → body i s = .leave r → Q r) (is : List ι) {s : σ}
    (hI : ∀ i ∈ is, I i) (hP : P s) :
    (∀ s', passes body is s = .again s' → P s') ∧ (∀ r, passes body is s = .leave r → Q r) := by
  induction is generalizing s with
  | nil =>
    refine ⟨fun s' h => ?_, fun r h => ?_⟩
    · cases h
      exact hP
    · cases h
  | cons i is ih =>
    have hi : I i := hI i List.mem_cons_self
    have hrest : ∀ j ∈ is, I j := fun j hj => hI j (List.mem_cons_of_mem _ hj)
    cases hb : body i s with
    | again t =>
      rw [passes_cons_again hb]
      exact ih hrest (hagain i s t hi hP hb)
    | leave r =>
      rw [passes_cons_leave hb]
      refine ⟨fun s' h => ?_, fun r' h => ?_⟩
      · cases h
      · cases h
        exact hleave i s r hi hP hb

/--
**The rule for a loop that counts.** `P i` holds in front of the pass `i`, and the loop ends at `n`.
-/
theorem passes_range_rule {P : Nat → σ → Prop} {Q : ρ → Prop} {f : Nat → ι} {n : Nat}
    (hagain : ∀ i s s', i < n → P i s → body (f i) s = .again s' → P (i + 1) s')
    (hleave : ∀ i s r, i < n → P i s → body (f i) s = .leave r → Q r) (k : Nat) {m : Nat} {s : σ}
    (hm : m + k = n) (hP : P m s) :
    (∀ s', passes body ((List.range' m k).map f) s = .again s' → P n s') ∧
      (∀ r, passes body ((List.range' m k).map f) s = .leave r → Q r) := by
  induction k generalizing m s with
  | zero =>
    refine Flow.at_again ?_
    rwa [← hm]
  | succ k ih =>
    have hlt : m < n := by omega
    rw [List.range'_succ, List.map_cons]
    cases hb : body (f m) s with
    | again t =>
      rw [passes_cons_again hb]
      exact ih (by omega) (hagain m s t hlt hP hb)
    | leave r =>
      rw [passes_cons_leave hb]
      exact Flow.at_leave (hleave m s r hlt hP hb)

/--
**Termination by a measure.**

If every pass that goes round again keeps `P` and makes `m` smaller, then more than `m s` inputs
are enough to leave. The inputs may be restricted by `I`.
-/
theorem passes_leaves_of {P : σ → Prop} {I : ι → Prop} (m : σ → Nat)
    (hstep : ∀ i s s', I i → P s → body i s = .again s' → P s' ∧ m s' < m s) {is : List ι} {s : σ}
    (hI : ∀ i ∈ is, I i) (hP : P s) (hlen : m s < is.length) :
    ∃ r, passes body is s = .leave r := by
  induction is generalizing s with
  | nil => simp at hlen
  | cons i is ih =>
    cases hb : body i s with
    | again t =>
      obtain ⟨hP', hlt⟩ := hstep i s t (hI i List.mem_cons_self) hP hb
      rw [passes_cons_again hb]
      rw [List.length_cons] at hlen
      exact ih (fun j hj => hI j (List.mem_cons_of_mem _ hj)) hP' (by omega)
    | leave r => exact ⟨r, passes_cons_leave hb is⟩

/-- The rule for whatever inputs. -/
theorem passes_leaves {P : σ → Prop} (m : σ → Nat)
    (hstep : ∀ i s s', P s → body i s = .again s' → P s' ∧ m s' < m s) {is : List ι} {s : σ}
    (hP : P s) (hlen : m s < is.length) : ∃ r, passes body is s = .leave r :=
  passes_leaves_of (I := fun _ => True) m (fun i s s' _ => hstep i s s') (fun _ _ => trivial) hP
    hlen

/--
**Termination with a result.** If every pass from a head where `P` holds keeps `P` and makes `m`
smaller, or leaves with `Q`, then more than `m s` inputs are enough to leave with `Q`.
-/
theorem passes_leaves_with {P : σ → Prop} {Q : ρ → Prop} {I : ι → Prop} (m : σ → Nat)
    (hpass : ∀ i s, I i → P s →
      (∃ s', body i s = .again s' ∧ P s' ∧ m s' < m s) ∨ ∃ r, body i s = .leave r ∧ Q r)
    {is : List ι} {s : σ} (hI : ∀ i ∈ is, I i) (hP : P s) (hlen : m s < is.length) :
    ∃ r, passes body is s = .leave r ∧ Q r := by
  induction is generalizing s with
  | nil => exact absurd hlen (Nat.not_lt_zero _)
  | cons i is ih =>
    rcases hpass i s (hI i List.mem_cons_self) hP with ⟨t, hb, hPt, hlt⟩ | ⟨r, hb, hQ⟩
    · rw [List.length_cons] at hlen
      rw [passes_cons_again hb]
      exact ih (fun j hj => hI j (List.mem_cons_of_mem _ hj)) hPt (by omega)
    · exact ⟨r, passes_cons_leave hb is, hQ⟩

/-! ## What the passes leave behind -/

/-- What the passes write down, one after the other. -/
def written {α : Type*} (body : ι → σ → Flow σ ρ) (out : ι → σ → List α) : List ι → σ → List α
  | [], _ => []
  | i :: is, s =>
    out i s ++ match body i s with
      | .again s' => written body out is s'
      | .leave _ => []

theorem written_cons_again {α : Type*} {out : ι → σ → List α} {i : ι} {s s' : σ}
    (h : body i s = .again s') (is : List ι) :
    written body out (i :: is) s = out i s ++ written body out is s' := by
  rw [written, h]

theorem written_cons_leave {α : Type*} {out : ι → σ → List α} {i : ι} {s : σ} {r : ρ}
    (h : body i s = .leave r) (is : List ι) : written body out (i :: is) s = out i s := by
  rw [written, h]
  exact List.append_nil _

/-- The invariant rule for what has been written down so far, together with the state. -/
theorem written_rule {α : Type*} {out : ι → σ → List α} {P : List α → σ → Prop}
    {Q : List α → ρ → Prop}
    (hagain : ∀ l i s s', P l s → body i s = .again s' → P (l ++ out i s) s')
    (hleave : ∀ l i s r, P l s → body i s = .leave r → Q (l ++ out i s) r) (is : List ι)
    {l : List α} {s : σ} (hP : P l s) :
    (∀ s', passes body is s = .again s' → P (l ++ written body out is s) s') ∧
      (∀ r, passes body is s = .leave r → Q (l ++ written body out is s) r) := by
  induction is generalizing l s with
  | nil =>
    refine Flow.at_again ?_
    rw [written, List.append_nil]
    exact hP
  | cons i is ih =>
    cases hb : body i s with
    | again t =>
      rw [passes_cons_again hb, written_cons_again hb, ← List.append_assoc]
      exact ih (hagain l i s t hP hb)
    | leave r =>
      rw [passes_cons_leave hb, written_cons_leave hb]
      exact Flow.at_leave (hleave l i s r hP hb)

/-! ## Whole runs -/

/-- The first `n` inputs of a stream. -/
def firstInputs (e : Nat → ι) (n : Nat) : List ι := (List.range n).map e

theorem firstInputs_succ (e : Nat → ι) (n : Nat) :
    firstInputs e (n + 1) = firstInputs e n ++ [e n] := by
  simp [firstInputs, List.range_succ]

/-- A list is the beginning of a stream. -/
theorem firstInputs_getD (is : List ι) (i : ι) :
    firstInputs (fun n => is.getD n i) is.length = is := by
  refine List.ext_getElem (by simp [firstInputs]) fun n h h' => ?_
  simp [firstInputs, h']

/-- `n` passes along the stream lead from the head at `s` to the head at `t`. -/
def HeadAt (body : ι → σ → Flow σ ρ) (e : Nat → ι) (s : σ) (n : Nat) (t : σ) : Prop :=
  passes body (firstInputs e n) s = .again t

/-- Along the stream `e` the loop leaves after finitely many passes, with the result `r`. -/
def LeavesWith (body : ι → σ → Flow σ ρ) (e : Nat → ι) (s : σ) (r : ρ) : Prop :=
  ∃ n, passes body (firstInputs e n) s = .leave r

theorem headAt_zero (e : Nat → ι) (s : σ) : HeadAt body e s 0 s := rfl

theorem HeadAt.succ {e : Nat → ι} {s t t' : σ} {n : Nat} (h : HeadAt body e s n t)
    (hb : body (e n) t = .again t') : HeadAt body e s (n + 1) t' := by
  unfold HeadAt
  rw [firstInputs_succ, passes_append_again _ _ h, passes_cons_again hb]
  rfl

theorem HeadAt.leave {e : Nat → ι} {s t : σ} {r : ρ} {n : Nat} (h : HeadAt body e s n t)
    (hb : body (e n) t = .leave r) : LeavesWith body e s r := by
  refine ⟨n + 1, ?_⟩
  rw [firstInputs_succ, passes_append_again _ _ h, passes_cons_leave hb]

/-- The head after `n + 1` passes comes from a head after `n` passes. -/
theorem HeadAt.pred {e : Nat → ι} {s t : σ} {n : Nat} (h : HeadAt body e s (n + 1) t) :
    ∃ s', HeadAt body e s n s' ∧ body (e n) s' = .again t := by
  unfold HeadAt at h
  rw [firstInputs_succ] at h
  cases hp : passes body (firstInputs e n) s with
  | again s' =>
    rw [passes_append_again _ _ hp] at h
    cases hb : body (e n) s' with
    | again s'' =>
      rw [passes_cons_again hb] at h
      cases h
      exact ⟨s', hp, hb⟩
    | leave r =>
      rw [passes_cons_leave hb] at h
      cases h
  | leave r =>
    rw [passes_append_leave _ _ hp] at h
    cases h

theorem HeadAt.unique {e : Nat → ι} {s t t' : σ} {n : Nat} (h : HeadAt body e s n t)
    (h' : HeadAt body e s n t') : t = t' := by
  unfold HeadAt at h h'
  rw [h] at h'
  exact Flow.again.inj h'

/-- Every head of a run satisfies what the first head satisfies and the passes keep. -/
theorem HeadAt.invariant {P : Nat → σ → Prop} {e : Nat → ι} {s : σ} (h0 : P 0 s)
    (hstep : ∀ n t t', P n t → body (e n) t = .again t' → P (n + 1) t') :
    ∀ {n : Nat} {t : σ}, HeadAt body e s n t → P n t := by
  intro n
  induction n with
  | zero =>
    intro t h
    cases h
    exact h0
  | succ n ih =>
    intro t h
    obtain ⟨s', hs', hb⟩ := h.pred
    exact hstep n s' t (ih hs') hb

/-- A loop that leaves has a last head, from which the last pass leaves. -/
theorem LeavesWith.last {e : Nat → ι} {s : σ} {r : ρ} (h : LeavesWith body e s r) :
    ∃ n t, HeadAt body e s n t ∧ body (e n) t = .leave r := by
  obtain ⟨n, hn⟩ := h
  induction n with
  | zero => cases hn
  | succ n ih =>
    rw [firstInputs_succ] at hn
    cases hp : passes body (firstInputs e n) s with
    | again t =>
      rw [passes_append_again _ _ hp] at hn
      cases hb : body (e n) t with
      | again t' =>
        rw [passes_cons_again hb] at hn
        cases hn
      | leave r' =>
        rw [passes_cons_leave hb] at hn
        cases hn
        exact ⟨n, t, hp, hb⟩
    | leave r' =>
      rw [passes_append_leave _ _ hp] at hn
      cases hn
      exact ih hp

/-- After the loop has left there are no more heads. -/
theorem LeavesWith.headAt_lt {e : Nat → ι} {s t : σ} {r : ρ} {n m : Nat}
    (hn : passes body (firstInputs e n) s = .leave r) (hm : HeadAt body e s m t) : m < n := by
  by_contra hge
  have hsplit : firstInputs e m = firstInputs e n ++ ((List.range' n (m - n)).map e) := by
    have hr := List.range'_append_1 (s := 0) (m := n) (n := m - n)
    rw [Nat.zero_add, Nat.add_sub_cancel' (by omega)] at hr
    rw [firstInputs, firstInputs, ← List.map_append, List.range_eq_range', List.range_eq_range', hr]
  unfold HeadAt at hm
  rw [hsplit, passes_append_leave _ _ hn] at hm
  cases hm

/-- A loop leaves in one way only. -/
theorem LeavesWith.unique {e : Nat → ι} {s : σ} {r r' : ρ} (h : LeavesWith body e s r)
    (h' : LeavesWith body e s r') : r = r' := by
  obtain ⟨n, t, hn, hb⟩ := h.last
  obtain ⟨n', t', hn', hb'⟩ := h'.last
  have hle : ∀ {a b : Nat} {u v : σ} {q : ρ}, HeadAt body e s a u → body (e a) u = .leave q →
      HeadAt body e s b v → b ≤ a := by
    intro a b u v q ha hq hv
    have hleft : passes body (firstInputs e (a + 1)) s = .leave q := by
      rw [firstInputs_succ, passes_append_again _ _ ha, passes_cons_leave hq]
    have := LeavesWith.headAt_lt hleft hv
    omega
  have hnn : n = n' := Nat.le_antisymm (hle hn' hb' hn) (hle hn hb hn')
  subst hnn
  rw [hn.unique hn', hb'] at hb
  exact (Flow.leave.inj hb).symm

/-- A head that every pass leads back to is never left. -/
theorem not_leaves_of_stuck {e : Nat → ι} {s t : σ} {n : Nat} (hn : HeadAt body e s n t)
    (hstuck : ∀ i, body i t = .again t) (r : ρ) : ¬ LeavesWith body e s r := by
  have hall : ∀ k, HeadAt body e s (n + k) t := by
    intro k
    induction k with
    | zero => exact hn
    | succ k ih => exact ih.succ (hstuck _)
  rintro ⟨k, hk⟩
  have hlt := LeavesWith.headAt_lt hk (hall k)
  omega

end Loop
