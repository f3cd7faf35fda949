import Mathlib.Data.List.Forall2
import Nwchecker.Lib.Machine

/-!
# Requests and answers in order

A client puts requests on a channel. A server takes them off in order and puts an answer to each
on a second channel, unless the answer is dropped. The client takes the answers off in order.

* `step` — the machine, and `Ordered` what its runs keep
* `Ordered.balance` — every request is waiting, or its answer was dropped, waits or was received
* `Ordered.paired` — when no answer is dropped, the answers received are those of the first requests
* `History` — a state told by what happened so far; `History.advance` leads from one to any later
  one, so that whatever keeps a history refines the machine, and `History.ordered` follows
-/

namespace Pipeline

open Machine

variable {α β : Type*}

/--
`requests` and `answers` are the channels. `outcomes` lists the requests served, each with the
answer that was put on the channel if it was not dropped.
-/
structure State (α β : Type*) where
  requests : List α
  outcomes : List (α × Option β)
  answers : List β
  received : List β

inductive Event (α β : Type*) where
  | request (a : α)
  /-- The server takes the next request and answers it, or drops the answer. -/
  | serve (answer : Option β)
  | receive

/-- Nothing has been sent yet. -/
def State.empty : State α β where
  requests := []
  outcomes := []
  answers := []
  received := []

/-- All requests sent so far. -/
def State.sent (p : State α β) : List α := p.outcomes.map Prod.fst ++ p.requests

/-- How many answers were dropped. -/
def State.dropped (p : State α β) : Nat := p.outcomes.countP fun o => o.2.isNone

section Step

variable (A : α → β → Prop) [∀ a b, Decidable (A a b)]

/-- `A a b` says that `b` answers `a`. -/
def step (p : State α β) : Event α β → Option (State α β)
  | .request a => some { p with requests := p.requests ++ [a] }
  | .serve answer =>
    match p.requests with
    | a :: requests =>
      if ∀ b ∈ answer, A a b then
        some
          { p with
            requests := requests
            outcomes := p.outcomes ++ [(a, answer)]
            answers := p.answers ++ answer.toList }
      else none
    | [] => none
  | .receive =>
    match p.answers with
    | b :: answers => some { p with answers := answers, received := p.received ++ [b] }
    | [] => none

/-- The answers come from the requests served, and they are received in order. -/
structure Ordered (p : State α β) : Prop where
  answered : p.outcomes.filterMap Prod.snd = p.received ++ p.answers
  answers : ∀ o ∈ p.outcomes, ∀ b ∈ o.2, A o.1 b

variable {A} {p q : State α β}

omit [∀ a b, Decidable (A a b)] in
theorem ordered_empty : Ordered A (State.empty : State α β) :=
  ⟨rfl, fun _ ho => absurd ho List.not_mem_nil⟩

theorem Ordered.step (h : Ordered A p) {e : Event α β} (hstep : step A p e = some q) :
    Ordered A q := by
  cases e with
  | request a =>
    cases hstep
    exact ⟨h.answered, h.answers⟩
  | serve answer =>
    simp only [Pipeline.step] at hstep
    split at hstep
    · next a requests _ =>
      split at hstep
      · next hA =>
        cases hstep
        refine ⟨?_, List.forall_mem_append.mpr ⟨h.answers, List.forall_mem_singleton.mpr hA⟩⟩
        rw [List.filterMap_append, h.answered, List.append_assoc]
        cases answer with
        | none => rfl
        | some b => rfl
      · cases hstep
    · cases hstep
  | receive =>
    simp only [Pipeline.step] at hstep
    split at hstep
    · next b answers hb =>
      cases hstep
      refine ⟨?_, h.answers⟩
      rw [h.answered, hb, List.append_assoc]
      rfl
    · cases hstep

/-- Every run keeps the order. -/
theorem run_ordered {es : List (Event α β)} (hrun : replay (step A) State.empty es = some p) :
    Ordered A p :=
  replay_invariant (I := fun _ => True) (fun _ _ _ _ h hstep => h.step hstep) (fun _ _ => trivial)
    ordered_empty hrun

end Step

/-! ## What the order gives -/

section Order

variable {A : α → β → Prop} {p : State α β}

theorem length_answered (outcomes : List (α × Option β)) :
    (outcomes.filterMap Prod.snd).length + outcomes.countP (fun o => o.2.isNone)
      = outcomes.length := by
  induction outcomes with
  | nil => rfl
  | cons o outcomes ih =>
    rcases o with ⟨a, _ | b⟩
    · rw [List.filterMap_cons_none rfl, List.countP_cons_of_pos rfl, List.length_cons, ← ih]
      rfl
    · rw [List.filterMap_cons_some (f := Prod.snd) (b := b) rfl,
        List.countP_cons_of_neg (by simp), List.length_cons, List.length_cons, ← ih]
      omega

/-- **No request is lost or counted twice.** -/
theorem Ordered.balance (h : Ordered A p) :
    p.sent.length
      = p.received.length + p.answers.length + p.dropped + p.requests.length := by
  have hlen := length_answered p.outcomes
  rw [h.answered, List.length_append] at hlen
  rw [State.sent, State.dropped, List.length_append, List.length_map]
  omega

/-- The answers that were not dropped, with the requests they answer. -/
theorem answered_forall₂ : ∀ {outcomes : List (α × Option β)},
    (∀ o ∈ outcomes, ∀ b ∈ o.2, A o.1 b) →
    ∃ as, as.Sublist (outcomes.map Prod.fst) ∧
      List.Forall₂ A as (outcomes.filterMap Prod.snd) ∧
      (outcomes.countP (fun o => o.2.isNone) = 0 → as = outcomes.map Prod.fst)
  | [], _ => ⟨[], List.Sublist.refl _, .nil, fun _ => rfl⟩
  | (a, none) :: outcomes, h => by
    obtain ⟨as, hsub, hans, -⟩ :=
      answered_forall₂ fun o ho => h o (List.mem_cons_of_mem _ ho)
    refine ⟨as, hsub.cons a, hans, fun h0 => ?_⟩
    rw [List.countP_cons_of_pos rfl] at h0
    cases h0
  | (a, some b) :: outcomes, h => by
    obtain ⟨as, hsub, hans, hall⟩ :=
      answered_forall₂ fun o ho => h o (List.mem_cons_of_mem _ ho)
    refine ⟨a :: as, hsub.cons_cons a, .cons (h _ List.mem_cons_self b rfl) hans, fun h0 => ?_⟩
    rw [List.countP_cons_of_neg (by simp)] at h0
    rw [hall h0]
    rfl

/-- The answers received are answers to requests served, each to one, in the order of both. -/
theorem Ordered.received_answer (h : Ordered A p) :
    ∃ as, as.Sublist (p.outcomes.map Prod.fst) ∧ List.Forall₂ A as p.received := by
  obtain ⟨as, hsub, hans, -⟩ := answered_forall₂ h.answers
  rw [h.answered] at hans
  refine ⟨as.take p.received.length, (List.take_sublist _ _).trans hsub, ?_⟩
  have htake := List.forall₂_take p.received.length hans
  rwa [List.take_left' rfl] at htake

/-- **Without drops the answers received are the answers to the first requests.** -/
theorem Ordered.paired (h : Ordered A p) (hdropped : p.dropped = 0) :
    List.Forall₂ A (p.sent.take p.received.length) p.received := by
  obtain ⟨as, -, hans, hall⟩ := answered_forall₂ h.answers
  rw [hall hdropped, h.answered] at hans
  have hle : p.received.length ≤ (p.outcomes.map Prod.fst).length := by
    rw [hans.length_eq, List.length_append]
    omega
  have htake := List.forall₂_take p.received.length hans
  have hmore : (p.outcomes.map Prod.fst ++ p.requests).take p.received.length
      = (p.outcomes.map Prod.fst).take p.received.length := List.take_append_of_le_length hle
  rwa [List.take_left' rfl, ← hmore] at htake

end Order

/-! ## Histories -/

/-- What happened so far: served is what was sent first, and received what was answered first. -/
structure History (A : α → β → Prop) where
  sent : List α
  outcomes : List (α × Option β)
  received : List β
  served_isInitial : outcomes.map Prod.fst <+: sent
  received_isInitial : received <+: outcomes.filterMap Prod.snd
  answers : ∀ o ∈ outcomes, ∀ b ∈ o.2, A o.1 b

namespace History

variable {A : α → β → Prop}

/-- What is on the channels is what happened at one end and not yet at the other. -/
def state (h : History A) : State α β where
  requests := h.sent.drop h.outcomes.length
  outcomes := h.outcomes
  answers := (h.outcomes.filterMap Prod.snd).drop h.received.length
  received := h.received

theorem state_sent (h : History A) : h.state.sent = h.sent := by
  obtain ⟨rest, hrest⟩ := h.served_isInitial
  have hlen : h.outcomes.length = (h.outcomes.map Prod.fst).length := (List.length_map _).symm
  show h.outcomes.map Prod.fst ++ h.sent.drop h.outcomes.length = h.sent
  rw [hlen, ← hrest, List.drop_left' rfl]

/-- `h'` is `h` some time later. -/
structure Later (h h' : History A) : Prop where
  sent : h.sent <+: h'.sent
  outcomes : h.outcomes <+: h'.outcomes
  received : h.received <+: h'.received

variable [∀ a b, Decidable (A a b)]

theorem replay_requests (p : State α β) : ∀ as : List α,
    replay (step A) p (as.map .request) = some { p with requests := p.requests ++ as }
  | [] => by rw [List.append_nil]; rfl
  | a :: as => by
    refine replay_cons.mpr ⟨_, rfl, ?_⟩
    rw [replay_requests { p with requests := p.requests ++ [a] } as, List.append_assoc]
    rfl

theorem replay_serves (p : State α β) : ∀ {os : List (α × Option β)} {rest : List α},
    (∀ o ∈ os, ∀ b ∈ o.2, A o.1 b) → p.requests = os.map Prod.fst ++ rest →
    replay (step A) p (os.map fun o => .serve o.2)
      = some
          { p with
            requests := rest
            outcomes := p.outcomes ++ os
            answers := p.answers ++ os.filterMap Prod.snd }
  | [], rest, _, hp => by
    rw [List.map_nil, List.nil_append] at hp
    rw [List.filterMap_nil, List.append_nil, List.append_nil, ← hp]
    rfl
  | o :: os, rest, hA, hp => by
    have hstep : step A p (.serve o.2)
        = some
            { p with
              requests := os.map Prod.fst ++ rest
              outcomes := p.outcomes ++ [o]
              answers := p.answers ++ o.2.toList } := by
      simp only [step, hp, List.map_cons, List.cons_append]
      rw [if_pos (hA o List.mem_cons_self)]
    refine replay_cons.mpr ⟨_, hstep, ?_⟩
    rw [replay_serves _ (fun x hx => hA x (List.mem_cons_of_mem _ hx)) rfl]
    rcases o with ⟨a, _ | b⟩
    · rw [List.filterMap_cons_none rfl, Option.toList_none, List.append_nil, List.append_assoc]
      rfl
    · rw [List.filterMap_cons_some (f := Prod.snd) (b := b) rfl, Option.toList_some,
        List.append_assoc, List.append_assoc]
      rfl

theorem replay_receives (p : State α β) : ∀ {bs rest : List β}, p.answers = bs ++ rest →
    replay (step A) p (bs.map fun _ => .receive)
      = some { p with answers := rest, received := p.received ++ bs }
  | [], rest, hp => by
    rw [List.nil_append] at hp
    rw [List.append_nil, ← hp]
    rfl
  | b :: bs, rest, hp => by
    have hstep : step A p .receive
        = some { p with answers := bs ++ rest, received := p.received ++ [b] } := by
      simp only [step, hp, List.cons_append]
    refine replay_cons.mpr ⟨_, hstep, ?_⟩
    rw [replay_receives _ rfl, List.append_assoc]
    rfl

/--
**The simulation rule.** From one history to a later one there is a run of the machine: the
requests that were sent meanwhile, then those that were served, then the answers received.
-/
theorem advance {h h' : History A} (hl : h.Later h') :
    ∃ es, replay (step A) h.state es = some h'.state := by
  obtain ⟨as, has⟩ := hl.sent
  obtain ⟨os, hos⟩ := hl.outcomes
  obtain ⟨bs, hbs⟩ := hl.received
  obtain ⟨rest, hrest⟩ := h'.served_isInitial
  obtain ⟨back, hback⟩ := h'.received_isInitial
  refine ⟨as.map .request ++ (os.map (fun o => .serve o.2) ++ bs.map fun _ => .receive), ?_⟩
  -- what waits for the server once the new requests are there
  have hrequests : h.sent.drop h.outcomes.length ++ as = os.map Prod.fst ++ rest := by
    have hle : h.outcomes.length ≤ h.sent.length := by
      rw [← List.length_map (f := Prod.fst)]
      exact h.served_isInitial.length_le
    rw [← List.drop_append_of_le_length hle, has, ← hrest, ← hos, List.map_append,
      List.append_assoc]
    exact List.drop_left' (List.length_map _)
  have hanswers : (h.outcomes.filterMap Prod.snd).drop h.received.length
      ++ os.filterMap Prod.snd = bs ++ back := by
    have hle := h.received_isInitial.length_le
    rw [← List.drop_append_of_le_length hle, ← List.filterMap_append, hos, ← hback, ← hbs,
      List.append_assoc]
    exact List.drop_left' rfl
  refine replay_append.mpr ⟨_, replay_requests _ as, replay_append.mpr ⟨_, replay_serves _
    (fun o ho => h'.answers o (hos ▸ List.mem_append_right _ ho)) hrequests, ?_⟩⟩
  rw [replay_receives _ hanswers]
  refine congrArg some ?_
  show State.mk rest (h.outcomes ++ os) back (h.received ++ bs) = h'.state
  have hlen : h'.outcomes.length = (h'.outcomes.map Prod.fst).length := (List.length_map _).symm
  rw [hos, hbs, state, hlen, ← hrest, ← hback, List.drop_left' rfl, List.drop_left' rfl]

/-- Nothing has happened yet. -/
def start : History A where
  sent := []
  outcomes := []
  received := []
  served_isInitial := List.prefix_rfl
  received_isInitial := List.prefix_rfl
  answers := fun _ ho => absurd ho List.not_mem_nil

/-- Every history is in order, for there is a run that leads to it. -/
theorem ordered (h : History A) : Ordered A h.state := by
  have hlater : Later start h := ⟨List.nil_prefix, List.nil_prefix, List.nil_prefix⟩
  obtain ⟨es, hes⟩ := advance hlater
  exact run_ordered hes

end History

end Pipeline
