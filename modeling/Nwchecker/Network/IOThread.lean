import Mathlib.Logic.Function.Basic
import Nwchecker.Lib.Machine

/-!
# The listeners of an I/O thread

`IOThread.java`: any number of threads hang events into `listener` and wake the selector up, and the
worker takes the events out before it goes into `select`. The operations of the queue are atomic,
and a wakeup stays until a `select` has returned for it.

`step` runs the worker statement by statement, with the offers and the wakeups of the other threads
in between. What the worker calls may add listeners too.
-/

namespace Nwchecker.Network

open Machine

/-- Where the worker is: what it does next. -/
inductive WorkerPc where
  /-- `listener.isEmpty()` -/
  | testing
  /-- `listener.poll()` -/
  | polling
  /-- `e.listen().process(e)` -/
  | polled
  /-- Inside `process`. -/
  | processing
  /-- `nio_selector_.select()` -/
  | selecting
  /-- Inside `select`. -/
  | blocked
  /-- Among the selected keys. -/
  | handling
  /-- A `NullPointerException` has ended the thread. -/
  | dead
  deriving DecidableEq, Repr

/-- Who calls `addListener`: the worker from within a callback, or another thread. -/
inductive Caller (ι : Type) where
  | worker
  | other (i : ι)
  deriving DecidableEq, Repr

/-- The thread, its callers, and what has happened. -/
structure IOThread (α ι : Type) where
  pc : WorkerPc
  listener : List α
  /-- The variable of `dispatchListeners`. -/
  e : Option α
  /-- A wakeup of `nio_selector_` is pending. -/
  woken : Bool
  /-- Between the two statements of `addListener`. -/
  adding : Caller ι → Bool
  /-- The events that have been offered, and those whose `process` has been called. -/
  offered : List α
  processed : List α

namespace IOThread

variable {α ι : Type}

def start : IOThread α ι where
  pc := .testing
  listener := []
  e := none
  woken := false
  adding := fun _ => false
  offered := []
  processed := []

/-- `listener.offer(e)` -/
def offer [DecidableEq ι] (s : IOThread α ι) (c : Caller ι) (e : α) : IOThread α ι :=
  { s with
    listener := s.listener ++ [e]
    offered := s.offered ++ [e]
    adding := Function.update s.adding c true }

/-- `poller_.wakeup()` -/
def wakeup [DecidableEq ι] (s : IOThread α ι) (c : Caller ι) : IOThread α ι :=
  { s with woken := true, adding := Function.update s.adding c false }

/-- `select` returns, and a wakeup is used up. -/
def selected (s : IOThread α ι) (ready : Bool) : IOThread α ι :=
  { s with woken := false, pc := if ready then .handling else .testing }

/-- The next statement of `Worker.run`. Keys are `ready` or not. -/
def advance (s : IOThread α ι) (ready : Bool) : Option (IOThread α ι) :=
  match s.pc with
  | .testing => some { s with pc := if s.listener.isEmpty then .selecting else .polling }
  | .polling =>
    some { s with pc := .polled, e := s.listener.head?, listener := s.listener.tail }
  | .polled =>
    match s.e with
    | none => some { s with pc := .dead }
    | some e => some { s with pc := .processing, processed := s.processed ++ [e] }
  | .processing => some { s with pc := .testing }
  | .selecting =>
    if s.woken || ready then some (s.selected ready) else some { s with pc := .blocked }
  | .blocked => if s.woken || ready then some (s.selected ready) else none
  | .handling => some { s with pc := .testing }
  | .dead => none

/-- The worker calls `addListener` from `process` and from the callbacks of the keys only. -/
def mayAdd (s : IOThread α ι) : Caller ι → Bool
  | .worker => decide (s.pc = .processing ∨ s.pc = .handling)
  | .other _ => true

inductive Event (α ι : Type) where
  | offer (c : Caller ι) (e : α)
  | wakeup (c : Caller ι)
  | advance (ready : Bool)
  /-- `select` throws an `IOException`, which is caught. -/
  | selectFails

def step [DecidableEq ι] (s : IOThread α ι) : Event α ι → Option (IOThread α ι)
  | .offer c e => if s.adding c = false ∧ s.mayAdd c = true then some (s.offer c e) else none
  | .wakeup c => if s.adding c = true then some (s.wakeup c) else none
  | .advance ready => if s.adding .worker = false then s.advance ready else none
  | .selectFails =>
    if s.pc = .selecting ∨ s.pc = .blocked then some { s with pc := .testing } else none

/-- The event that has been taken out and is not processed yet. -/
def inHand (s : IOThread α ι) : List α := if s.pc = .polled then s.e.toList else []

/-- A wakeup is pending, or will be. -/
def Heard (s : IOThread α ι) : Prop := s.woken = true ∨ ∃ c, s.adding c = true

/-- What holds at every statement. -/
structure Inv (s : IOThread α ι) : Prop where
  fifo : s.processed ++ s.inHand ++ s.listener = s.offered
  /-- Nobody but the worker takes events out. -/
  filled : s.pc = .polling → s.listener ≠ []
  taken : s.pc = .polled → s.e ≠ none
  alive : s.pc ≠ .dead
  heard : s.pc = .selecting ∨ s.pc = .blocked → s.listener ≠ [] → s.Heard
  own : s.adding .worker = true → s.mayAdd .worker = true

variable {s t : IOThread α ι}

theorem inv_start : (start : IOThread α ι).Inv where
  fifo := rfl
  filled := by simp [start]
  taken := by simp [start]
  alive := by simp [start]
  heard := by simp [start]
  own := by simp [start]

/-! ## The worker -/

theorem inHand_of_ne (h : s.pc ≠ .polled) : s.inHand = [] := if_neg h

/-- A step with nothing in hand, to a statement in front of which nothing has to hold. -/
theorem Inv.at_free (hi : s.Inv) (hquiet : s.adding .worker = false) (hhand : s.pc ≠ .polled)
    (woken : Bool) {pc : WorkerPc} (hpc : pc = .testing ∨ pc = .handling) :
    Inv { s with pc := pc, woken := woken } where
  fifo := by
    have hfifo := hi.fifo
    rw [inHand_of_ne hhand] at hfifo
    rcases hpc with rfl | rfl
    · exact hfifo
    · exact hfifo
  filled := by rcases hpc with rfl | rfl <;> simp
  taken := by rcases hpc with rfl | rfl <;> simp
  alive := by rcases hpc with rfl | rfl <;> simp
  heard := by rcases hpc with rfl | rfl <;> simp
  own := by
    intro h
    rw [hquiet] at h
    cases h

/-- The events are all processed when the worker goes to `select`, but for those offered since. -/
theorem Inv.testing (hi : s.Inv) (hquiet : s.adding .worker = false) (hpc : s.pc = .testing) :
    Inv { s with pc := if s.listener.isEmpty then .selecting else .polling } := by
  have hfifo := hi.fifo
  rw [inHand_of_ne (by rw [hpc]; decide)] at hfifo
  have hown : s.adding .worker = true → False := by simp [hquiet]
  cases hempty : s.listener.isEmpty with
  | true =>
    have hnil : s.listener = [] := List.isEmpty_iff.mp hempty
    exact
      { fifo := hfifo
        filled := by simp
        taken := by simp
        alive := by simp
        heard := fun _ hne => absurd hnil hne
        own := fun h => (hown h).elim }
  | false =>
    have hne : s.listener ≠ [] := by
      intro hnil
      rw [hnil] at hempty
      cases hempty
    exact
      { fifo := hfifo
        filled := fun _ => hne
        taken := by simp
        alive := by simp
        heard := by simp
        own := fun h => (hown h).elim }

theorem Inv.polling (hi : s.Inv) (hquiet : s.adding .worker = false) (hpc : s.pc = .polling) :
    Inv { s with pc := .polled, e := s.listener.head?, listener := s.listener.tail } := by
  have hfifo := hi.fifo
  rw [inHand_of_ne (by rw [hpc]; decide)] at hfifo
  obtain ⟨e, rest, hcons⟩ := List.exists_cons_of_ne_nil (hi.filled hpc)
  rw [hcons] at hfifo ⊢
  exact
    { fifo := by simpa [inHand] using hfifo
      filled := by simp
      taken := by simp
      alive := by simp
      heard := by simp
      own := by simp [hquiet] }

theorem Inv.process (hi : s.Inv) (hquiet : s.adding .worker = false) (hpc : s.pc = .polled) {e : α}
    (he : s.e = some e) : Inv { s with pc := .processing, processed := s.processed ++ [e] } where
  fifo := by
    have hfifo := hi.fifo
    rw [inHand, if_pos hpc, he] at hfifo
    simpa [inHand] using hfifo
  filled := by simp
  taken := by simp
  alive := by simp
  heard := by simp
  own := by simp [hquiet]

/-- The worker blocks only when it has looked at the queue since the last wakeup was used up. -/
theorem Inv.block (hi : s.Inv) (hquiet : s.adding .worker = false) (hpc : s.pc = .selecting) :
    Inv { s with pc := .blocked } where
  fifo := by
    have hfifo := hi.fifo
    rw [inHand_of_ne (by rw [hpc]; decide)] at hfifo
    exact hfifo
  filled := by simp
  taken := by simp
  alive := by simp
  heard := fun _ => hi.heard (.inl hpc)
  own := by simp [hquiet]

theorem Inv.selected (hi : s.Inv) (hquiet : s.adding .worker = false) (hhand : s.pc ≠ .polled)
    (ready : Bool) : (s.selected ready).Inv := by
  refine hi.at_free hquiet hhand false ?_
  cases ready with
  | true => exact .inr rfl
  | false => exact .inl rfl

theorem Inv.advance (hi : s.Inv) (hquiet : s.adding .worker = false) {ready : Bool}
    (h : s.advance ready = some t) : t.Inv := by
  unfold IOThread.advance at h
  cases hpc : s.pc with
  | testing =>
    rw [hpc] at h
    cases h
    exact hi.testing hquiet hpc
  | polling =>
    rw [hpc] at h
    cases h
    exact hi.polling hquiet hpc
  | polled =>
    rw [hpc] at h
    dsimp only at h
    split at h
    · next he => exact absurd he (hi.taken hpc)
    · next e he =>
      cases h
      exact hi.process hquiet hpc he
  | processing =>
    rw [hpc] at h
    cases h
    exact hi.at_free hquiet (by rw [hpc]; decide) s.woken (.inl rfl)
  | selecting =>
    rw [hpc] at h
    dsimp only at h
    split at h
    · cases h
      exact hi.selected hquiet (by rw [hpc]; decide) ready
    · cases h
      exact hi.block hquiet hpc
  | blocked =>
    rw [hpc] at h
    dsimp only at h
    split at h
    · cases h
      exact hi.selected hquiet (by rw [hpc]; decide) ready
    · cases h
  | handling =>
    rw [hpc] at h
    cases h
    exact hi.at_free hquiet (by rw [hpc]; decide) s.woken (.inl rfl)
  | dead => exact absurd hpc hi.alive

/-! ## The callers -/

variable [DecidableEq ι]

theorem offer_adding (s : IOThread α ι) (c : Caller ι) (e : α) :
    (s.offer c e).adding = Function.update s.adding c true := rfl

theorem wakeup_adding (s : IOThread α ι) (c : Caller ι) :
    (s.wakeup c).adding = Function.update s.adding c false := rfl

theorem Inv.offer (hi : s.Inv) {c : Caller ι} (hmay : s.mayAdd c = true) (e : α) :
    (s.offer c e).Inv where
  fifo := by
    show s.processed ++ s.inHand ++ (s.listener ++ [e]) = s.offered ++ [e]
    rw [← List.append_assoc, hi.fifo]
  filled := fun _ => List.append_ne_nil_of_right_ne_nil _ (List.cons_ne_nil e [])
  taken := hi.taken
  alive := hi.alive
  heard := by
    intro _ _
    refine .inr ⟨c, ?_⟩
    rw [offer_adding, Function.update_self]
  own := by
    intro hadding
    show s.mayAdd .worker = true
    by_cases hc : c = .worker
    · rw [← hc]
      exact hmay
    · rw [offer_adding, Function.update_of_ne (Ne.symm hc)] at hadding
      exact hi.own hadding

theorem Inv.wakeup (hi : s.Inv) (c : Caller ι) : (s.wakeup c).Inv where
  fifo := hi.fifo
  filled := hi.filled
  taken := hi.taken
  alive := hi.alive
  heard := fun _ _ => .inl rfl
  own := by
    intro hadding
    by_cases hc : c = .worker
    · rw [wakeup_adding, hc, Function.update_self] at hadding
      cases hadding
    · rw [wakeup_adding, Function.update_of_ne (Ne.symm hc)] at hadding
      exact hi.own hadding

/-! ## Runs -/

theorem Inv.step (hi : s.Inv) {ev : Event α ι} (h : s.step ev = some t) : t.Inv := by
  cases ev with
  | offer c e =>
    rw [IOThread.step] at h
    split at h
    · next hguard =>
      cases h
      exact hi.offer hguard.2 e
    · cases h
  | wakeup c =>
    rw [IOThread.step] at h
    split at h
    · cases h
      exact hi.wakeup c
    · cases h
  | advance ready =>
    rw [IOThread.step] at h
    split at h
    · next hquiet => exact hi.advance hquiet h
    · cases h
  | selectFails =>
    rw [IOThread.step] at h
    split at h
    · next hpc =>
      cases h
      have hquiet : s.adding .worker = false := by
        by_contra hadding
        have := hi.own (by simpa using hadding)
        rcases hpc with hpc | hpc
        · simp [mayAdd, hpc] at this
        · simp [mayAdd, hpc] at this
      refine hi.at_free hquiet ?_ s.woken (.inl rfl)
      rcases hpc with hpc | hpc
      · rw [hpc]
        decide
      · rw [hpc]
        decide
    · cases h

theorem inv_replay {es : List (Event α ι)} (h : replay step start es = some s) : s.Inv :=
  replay_invariant (I := fun _ => True) (fun _ _ _ _ hi hstep => hi.step hstep)
    (fun _ _ => trivial) inv_start h

/--
**Events are processed in the order in which they are offered, and a worker that is blocked on a
queue with events will be woken.**
-/
theorem no_event_lost {es : List (Event α ι)} (h : replay step start es = some s) :
    s.processed ++ s.inHand ++ s.listener = s.offered ∧
      (s.pc = .blocked → s.listener ≠ [] →
        s.woken = true ∨ ∃ i, s.adding (.other i) = true) := by
  have hi := inv_replay h
  refine ⟨hi.fifo, fun hpc hne => ?_⟩
  rcases hi.heard (.inr hpc) hne with hwoken | ⟨c, hc⟩
  · exact .inl hwoken
  · cases c with
    | worker =>
      have hmay := hi.own hc
      simp [mayAdd, hpc] at hmay
    | other i => exact .inr ⟨i, hc⟩

/-- Another thread offers an event between the test of the queue and `select`. -/
def lateOffer : List (Event Nat Bool) :=
  [.advance false, .offer (.other true) 7, .advance false, .offer (.other false) 8,
    .wakeup (.other true)]

theorem lateOffer_woken : ∃ s, replay step start lateOffer = some s ∧ s.pc = .blocked ∧
    s.listener = [7, 8] ∧ s.processed ++ s.inHand ++ s.listener = s.offered ∧
      (s.pc = .blocked → s.listener ≠ [] →
        s.woken = true ∨ ∃ i, s.adding (.other i) = true) :=
  ⟨_, rfl, rfl, rfl, no_event_lost (show replay step start lateOffer = some _ from rfl)⟩

end IOThread

end Nwchecker.Network
