import Nwchecker.Looper.Worker

/-!
# One call of `nwc_looper_dispatch_worker`

The loop saves the node behind the one it is at, and a callback may do anything to the rings. All
goes well as long as the saved node stays in its ring; a worker that cancels the one right behind
it leads the loop into the other ring.

* `DispatchOk` — what one call is expected to do
* `NextKept` — the callback leaves the worker alone that comes next
* `dispatchWorker_iff` — the first holds all along the call exactly when the second does
-/

namespace Nwchecker

open Ring Machine

/-! ## Reading the log -/

/-- The workers that have been run, in order. -/
def runs (log : List WorkerMark) : List Nat :=
  log.filterMap fun
    | .run i _ _ => some i
    | _ => none

/-- The workers that have been registered, in order. -/
def registrations (log : List WorkerMark) : List Nat :=
  log.filterMap fun
    | .register i => some i
    | _ => none

/-- The workers that have been released, in order. -/
def releases (log : List WorkerMark) : List Nat :=
  log.filterMap fun
    | .free i => some i
    | _ => none

variable {log : List WorkerMark}

@[simp] theorem runs_run (i f : Nat) (ud : Option Nat) :
    runs (log ++ [.run i f ud]) = runs log ++ [i] := by
  simp [runs]

@[simp] theorem runs_register (i : Nat) : runs (log ++ [.register i]) = runs log := by
  simp [runs]

@[simp] theorem runs_cancel (i : Nat) : runs (log ++ [.cancel i]) = runs log := by
  simp [runs]

@[simp] theorem registrations_register (i : Nat) :
    registrations (log ++ [.register i]) = registrations log ++ [i] := by
  simp [registrations]

@[simp] theorem registrations_run (i f : Nat) (ud : Option Nat) :
    registrations (log ++ [.run i f ud]) = registrations log := by
  simp [registrations]

@[simp] theorem registrations_cancel (i : Nat) :
    registrations (log ++ [.cancel i]) = registrations log := by
  simp [registrations]

@[simp] theorem releases_run (i f : Nat) (ud : Option Nat) :
    releases (log ++ [.run i f ud]) = releases log := by
  simp [releases]

@[simp] theorem releases_register (i : Nat) : releases (log ++ [.register i]) = releases log := by
  simp [releases]

@[simp] theorem releases_cancel (i : Nat) : releases (log ++ [.cancel i]) = releases log := by
  simp [releases]

@[simp] theorem mem_registrations {i : Nat} : i ∈ registrations log ↔ .register i ∈ log := by
  unfold registrations
  rw [List.mem_filterMap]
  constructor
  · rintro ⟨m, hm, heq⟩
    cases m <;> cases heq
    exact hm
  · exact fun h => ⟨_, h, rfl⟩

theorem releases_free (log : List WorkerMark) (is : List Nat) :
    releases (log ++ is.map .free) = releases log ++ is := by
  induction is generalizing log with
  | nil => simp
  | cons i is ih =>
    rw [List.map_cons, ← List.singleton_append, ← List.append_assoc, ih]
    simp [releases]

/-! ## What a call is expected to do -/

/-- At any moment of the call, entered with the workers `ws` in the ring. -/
structure DispatchOk (ws : List Nat) (d : Dispatch) : Prop where
  /-- The loop is at a worker of its ring. -/
  onRing : ∀ pos n, d.cursor = .visit pos n → ∃ (i : Nat) (xs : List Nat),
    pos = .worker i ∧ i ∈ xs ∧ IsRing d.looper.links .workerHdr (xs.map .worker)
  notWild : d.cursor ≠ .wild
  /-- No worker runs twice, and they run in the order of their registration. -/
  once : (runs d.looper.log).Nodup
  inOrder : (runs d.looper.log).Sublist (ws ++ registrations d.looper.log)
  /-- Only registered workers run, and no cancelled one. -/
  history : ∀ a i f ud b, d.looper.log = a ++ .run i f ud :: b →
    (i ∈ ws ∨ .register i ∈ a) ∧ .cancel i ∉ a
  /-- At the end every worker has run that was not cancelled before its turn. -/
  complete : d.cursor = .finished → ∀ w ∈ ws, w ∈ runs d.looper.log ∨ .cancel w ∈ d.looper.log
  /-- The loop releases nothing, so the clean-up releases every cancelled worker for the first
  time. -/
  released : releases d.looper.log = [] ∧ ∃ n, ∀ fuel, n < fuel →
    ∃ l, nwcLooperDeleteRemovedWorker fuel d.looper = some l ∧ (releases l.log).Nodup ∧
      ∀ i ∈ releases l.log, (d.looper.workers i).isSome = true

/-- The callback does not cancel the worker whose node is saved in `n`. -/
def NextKept (d : Dispatch) (ops : List WorkerOp) : Prop :=
  ∀ pos i, d.cursor = .visit pos (.worker i) → .cancelWorker (some i) ∉ ops

/-! ## The clean-up -/

variable {l : NwcLooper} {ws rs front rest : List Nat}

theorem Registered.release {i : Nat} (h : Registered l ws (i :: rs)) :
    Registered (l.release i) ws rs := by
  have hnd := h.removed_nodup
  have hring : IsRing l.links .removedWorkerHdr ([] ++ WorkerNode.worker i :: rs.map .worker) :=
    h.removedRing
  have hne : ∀ j, j ≠ i → (l.release i).workers j = l.workers j := fun j hj =>
    Function.update_of_ne hj ..
  constructor
  · refine listDel_other .null hring h.workerRing fun v hv hv' => h.disjoint v hv' hv
  · exact listDel_isRing .null hring
  · intro j hj
    rw [hne j (by rintro rfl; exact h.not_cancelled hj List.mem_cons_self)]
    exact h.live j hj
  · intro j hj
    rw [hne j (by rintro rfl; exact (List.nodup_cons.mp hnd).1 hj)]
    exact h.cancelled j (List.mem_cons_of_mem _ hj)
  · intro j w hw
    by_cases hji : j = i
    · subst hji
      simp [NwcLooper.release, NwcLooper.note] at hw
    · rw [hne j hji] at hw
      rcases h.known j w hw with hj | hj
      · exact Or.inl hj
      · exact Or.inr (by simpa [hji] using hj)

/-- The clean-up releases the cancelled workers one after the other, and ends. -/
theorem deleteRemovedWorker_spec (h : Registered l ws rs) {fuel : Nat} (hfuel : rs.length < fuel) :
    ∃ t, nwcLooperDeleteRemovedWorker fuel l = some t ∧ Registered t ws [] ∧
      t.log = l.log ++ rs.map .free := by
  have hrule := listForEachSafe_rule NwcLooper.links .removedWorkerHdr deletePass
    (fun nodes t => ∃ done todo, rs = done ++ todo ∧ nodes = todo.map .worker ∧
      Registered t ws todo ∧ t.log = l.log ++ done.map .free)
    (by
      rintro x nodes t ⟨done, todo, -, hnodes, -, -⟩
      cases todo with
      | nil => cases hnodes
      | cons i todo =>
        rw [(List.cons.inj hnodes).1]
        exact fun h => by cases h)
    (by
      rintro x nodes t ⟨done, todo, -, hnodes, hreg, -⟩
      cases todo with
      | nil => cases hnodes
      | cons i todo =>
        obtain ⟨rfl, rfl⟩ := List.cons.inj hnodes
        have hring : IsRing t.links .removedWorkerHdr
            ([] ++ WorkerNode.worker i :: todo.map .worker) := hreg.removedRing
        exact hring.next_member)
    (by
      rintro x nodes t ⟨done, todo, hrs, hnodes, hreg, hlog⟩
      cases todo with
      | nil => cases hnodes
      | cons i todo =>
        obtain ⟨rfl, rfl⟩ := List.cons.inj hnodes
        refine ⟨done ++ [i], todo, by rw [hrs, List.append_assoc]; rfl, rfl, hreg.release, ?_⟩
        show t.log ++ [.free i] = _
        rw [hlog, List.append_assoc, List.map_append]
        rfl)
    (rs.map .worker) fuel l
    ⟨[], rs, rfl, rfl, h, by simp⟩ (by simpa using hfuel)
  obtain ⟨t, ht, done, todo, hrs, hnil, hreg, hlog⟩ := hrule
  obtain rfl : todo = [] := List.map_eq_nil_iff.mp hnil.symm
  rw [List.append_nil] at hrs
  refine ⟨t, ?_, hreg, by rw [hlog, hrs]⟩
  rw [nwcLooperDeleteRemovedWorker, h.removedRing.next_head]
  exact ht

/-! ## What the log says while all goes well -/

/--
The call has been entered with the workers `ws`, `ring` is in the ring now and `rest` is what the
loop still has before it.
-/
structure Logged (ws : List Nat) (l : NwcLooper) (ring rest : List Nat) : Prop where
  inOrder : (runs l.log ++ rest).Sublist (ws ++ registrations l.log)
  distinct : (ws ++ registrations l.log).Nodup
  history : ∀ a i f ud b, l.log = a ++ .run i f ud :: b →
    (i ∈ ws ∨ .register i ∈ a) ∧ .cancel i ∉ a
  complete : ∀ w ∈ ws, w ∈ runs l.log ∨ .cancel w ∈ l.log ∨ w ∈ rest
  standing : ∀ i ∈ ring, (i ∈ ws ∨ .register i ∈ l.log) ∧ .cancel i ∉ l.log
  allocated : ∀ i, i ∈ ws ∨ .register i ∈ l.log ∨ .cancel i ∈ l.log → l.workers i ≠ none
  kept : releases l.log = []

theorem Logged.enter (h : Registered l ws rs) : Logged ws { l with log := [] } ws ws where
  inOrder := by simp [runs, registrations]
  distinct := by simpa [registrations] using h.nodup
  history a i f ud b hlog := by simp at hlog
  complete w hw := Or.inr (Or.inr hw)
  standing i hi := ⟨Or.inl hi, List.not_mem_nil⟩
  allocated i hi := by
    obtain ⟨w, hw, -⟩ := h.live i (by simpa using hi)
    simp [hw]
  kept := rfl

/-- The worker in front runs. -/
theorem Logged.run {i : Nat} {ring : List Nat} (h : Logged ws l ring (i :: rest)) (hi : i ∈ ring)
    (f : Nat) (ud : Option Nat) : Logged ws (l.note (.run i f ud)) ring rest where
  inOrder := by simpa [NwcLooper.note] using h.inOrder
  distinct := by simpa [NwcLooper.note] using h.distinct
  history a j g ud' b hlog := by
    rcases split_last hlog with ⟨hm, hb⟩ | ⟨b', hb'⟩
    · obtain ⟨rfl, rfl, rfl⟩ := WorkerMark.run.inj hm
      rw [hb] at hlog
      obtain ⟨rfl, -⟩ := List.append_inj' hlog rfl
      exact h.standing j hi
    · exact h.history a j g ud' b' hb'
  complete w hw := by
    have := h.complete w hw
    simp only [NwcLooper.note, runs_run, List.mem_append, List.mem_singleton]
    grind
  standing j hj := by
    have := h.standing j hj
    simpa [NwcLooper.note] using this
  allocated j hj := h.allocated j (by simpa [NwcLooper.note] using hj)
  kept := by simpa [NwcLooper.note] using h.kept

/-- A new worker joins the ring, and what is ahead of the loop if there is anything ahead. -/
theorem Logged.register {i : Nat} {ring rest' : List Nat} (h : Logged ws l ring rest)
    (hi : l.workers i = none) (hrest : rest' = rest ∨ rest' = rest ++ [i]) (ud : Option Nat)
    (f : Nat) : Logged ws (l.register i ud f) (ring ++ [i]) rest' where
  inOrder := by
    have hlong : (runs l.log ++ (rest ++ [i])).Sublist (ws ++ (registrations l.log ++ [i])) := by
      rw [← List.append_assoc, ← List.append_assoc]
      exact h.inOrder.append (List.Sublist.refl _)
    simp only [NwcLooper.register, NwcLooper.note, runs_register, registrations_register]
    rcases hrest with rfl | rfl
    · exact ((List.sublist_append_left _ _).append_left _).trans hlong
    · exact hlong
  distinct := by
    simp only [NwcLooper.register, NwcLooper.note, registrations_register, ← List.append_assoc]
    refine List.Nodup.append h.distinct (List.nodup_singleton i) ?_
    intro j hj hji
    rw [List.mem_singleton.mp hji, List.mem_append, mem_registrations] at hj
    exact h.allocated i (hj.imp_right Or.inl) hi
  history a j g ud' b hlog := by
    rcases split_last hlog with ⟨hm, -⟩ | ⟨b', hb'⟩
    · cases hm
    · exact h.history a j g ud' b' hb'
  complete w hw := by
    have := h.complete w hw
    simp only [NwcLooper.register, NwcLooper.note, runs_register, List.mem_append]
    grind
  standing j hj := by
    simp only [NwcLooper.register, NwcLooper.note]
    rcases List.mem_append.mp hj with hj | hj
    · have := h.standing j hj
      simpa using ⟨this.1.imp_right Or.inl, this.2⟩
    · rw [List.mem_singleton.mp hj]
      have hfresh : .cancel i ∉ l.log := fun hc => h.allocated i (Or.inr (Or.inr hc)) hi
      simpa using hfresh
  allocated j hj := by
    by_cases hji : j = i
    · rw [hji]
      simp [NwcLooper.register, NwcLooper.note]
    · have hold : (l.register i ud f).workers j = l.workers j := Function.update_of_ne hji ..
      rw [hold]
      exact h.allocated j (by simpa [NwcLooper.register, NwcLooper.note, hji] using hj)
  kept := by simpa [NwcLooper.register, NwcLooper.note] using h.kept

/-- A worker is cancelled, and is no longer ahead of the loop. -/
theorem Logged.cancel {i : Nat} {ring ring' rest' : List Nat} (h : Logged ws l ring rest)
    (hring : ∀ j ∈ ring', j ∈ ring ∧ j ≠ i) (hsub : rest'.Sublist rest)
    (hrest : ∀ j ∈ rest, j = i ∨ j ∈ rest') : Logged ws (l.cancel i) ring' rest' where
  inOrder := by
    simpa [NwcLooper.cancel, NwcLooper.note] using (hsub.append_left _).trans h.inOrder
  distinct := by simpa [NwcLooper.cancel, NwcLooper.note] using h.distinct
  history a j g ud b hlog := by
    rcases split_last hlog with ⟨hm, -⟩ | ⟨b', hb'⟩
    · cases hm
    · exact h.history a j g ud b' hb'
  complete w hw := by
    have := h.complete w hw
    simp only [NwcLooper.cancel, NwcLooper.note, runs_cancel, List.mem_append,
      List.mem_singleton, WorkerMark.cancel.injEq]
    grind
  standing j hj := by
    obtain ⟨hj, hji⟩ := hring j hj
    have := h.standing j hj
    simpa [NwcLooper.cancel, NwcLooper.note, hji] using this
  allocated j hj := by
    by_cases hji : j = i
    · rw [hji]
      simp [NwcLooper.cancel, NwcLooper.note]
    · have hold : (l.cancel i).workers j = l.workers j := Function.update_of_ne hji ..
      rw [hold]
      exact h.allocated j (by simpa [NwcLooper.cancel, NwcLooper.note, hji] using hj)
  kept := by simpa [NwcLooper.cancel, NwcLooper.note] using h.kept

/-! ## The callbacks -/

/-- The node of the first of `rest`, or the head of the ring when nothing is left. -/
def nextNode (rest : List Nat) : WorkerNode := (rest.map WorkerNode.worker).headD .workerHdr

/-- While a callback runs: the saved node `n` is where the loop goes on. -/
def Underway (ws : List Nat) (n : WorkerNode) (l : NwcLooper) : Prop :=
  ∃ front rest rs, nextNode rest = n ∧ Registered l (front ++ rest) rs ∧
    Logged ws l (front ++ rest) rest

theorem Underway.register {n : WorkerNode} {i : Nat} (h : Underway ws n l)
    (hi : l.workers i = none) (ud : Option Nat) (f : Nat) :
    Underway ws n (l.register i ud f) := by
  obtain ⟨front, rest, rs, hn, hreg, hlog⟩ := h
  cases rest with
  | nil =>
    -- the loop is about to end, and the new worker waits for the next call
    rw [List.append_nil] at hreg hlog
    refine ⟨front ++ [i], [], rs, hn, ?_, ?_⟩
    · rw [List.append_nil]
      exact hreg.register hi ud f
    · rw [List.append_nil]
      exact hlog.register hi (Or.inl rfl) ud f
  | cons j rest =>
    refine ⟨front, (j :: rest) ++ [i], rs, hn, ?_, ?_⟩
    · rw [← List.append_assoc]
      exact hreg.register hi ud f
    · rw [← List.append_assoc]
      exact hlog.register hi (Or.inr rfl) ud f

theorem Underway.cancel {n : WorkerNode} {i : Nat} {w : NwcWorker} (h : Underway ws n l)
    (hw : l.workers i = some w) (hdo : w.workerDo.isSome = true) (hne : n ≠ .worker i) :
    Underway ws n (l.cancel i) := by
  obtain ⟨front, rest, rs, hn, hreg, hlog⟩ := h
  have hnd := hreg.nodup
  rcases List.mem_append.mp (hreg.mem_of_live hw hdo) with hi | hi
  · -- behind the loop
    obtain ⟨a, b, rfl⟩ := List.append_of_mem hi
    rw [List.append_assoc, List.cons_append] at hreg
    refine ⟨a ++ b, rest, rs ++ [i], hn, ?_, ?_⟩
    · rw [List.append_assoc]
      exact hreg.cancel
    · exact hlog.cancel (by grind) (List.Sublist.refl _) (by grind)
  · -- ahead of it, but not next
    obtain ⟨a, b, rfl⟩ := List.append_of_mem hi
    rw [← List.append_assoc] at hreg
    refine ⟨front, a ++ b, rs ++ [i], ?_, ?_, ?_⟩
    · cases a with
      | nil => exact absurd hn.symm hne
      | cons x a => exact hn
    · rw [← List.append_assoc]
      exact hreg.cancel
    · exact hlog.cancel (by grind) (by simp) (by grind)

/-- A call that leaves the next worker alone. -/
theorem Underway.op {n : WorkerNode} {l' : NwcLooper} {op : WorkerOp} (h : Underway ws n l)
    (hop : workerOp l op = some l') (hne : ∀ i, n = .worker i → op ≠ .cancelWorker (some i)) :
    Underway ws n l' := by
  rcases workerOp_cases hop with ⟨rfl, -⟩ | ⟨i, ud, f, -, hfree, rfl⟩ | ⟨i, w, rfl, hw, hdo, rfl⟩
  · exact h
  · exact h.register hfree ud f
  · exact h.cancel hw hdo fun hn => hne i hn rfl

/-- A cancelled worker is not registered again before it is released. -/
theorem removed_op {l' : NwcLooper} {op : WorkerOp} {i : Nat}
    (h : ∃ ws rs, Registered l ws rs ∧ i ∈ rs) (hop : workerOp l op = some l') :
    ∃ ws rs, Registered l' ws rs ∧ i ∈ rs := by
  obtain ⟨ws, rs, hreg, hi⟩ := h
  rcases workerOp_cases hop with ⟨rfl, -⟩ | ⟨j, ud, f, -, hfree, rfl⟩ | ⟨j, w, -, hw, hdo, rfl⟩
  · exact ⟨ws, rs, hreg, hi⟩
  · exact ⟨_, _, hreg.register hfree ud f, hi⟩
  · obtain ⟨front, back, rfl⟩ := List.append_of_mem (hreg.mem_of_live hw hdo)
    exact ⟨_, _, hreg.cancel, List.mem_append_left _ hi⟩

/-- Whatever else a callback does, a worker that it cancels ends up in the other ring. -/
theorem removed_of_cancel {ops : List WorkerOp} {l' : NwcLooper} {i : Nat}
    (hreg : Registered l ws rs) (hi : .cancelWorker (some i) ∈ ops)
    (hrun : replay workerOp l ops = some l') : ∃ ws rs, Registered l' ws rs ∧ i ∈ rs := by
  obtain ⟨before, after, rfl⟩ := List.append_of_mem hi
  obtain ⟨m, hbefore, hrest⟩ := replay_append.mp hrun
  obtain ⟨m', hop, hafter⟩ := replay_cons.mp hrest
  obtain ⟨ws', rs', hm⟩ : ∃ ws' rs', Registered m ws' rs' :=
    replay_invariant (P := fun l => ∃ ws rs, Registered l ws rs) (I := fun _ => True)
      (fun _ _ _ _ ⟨_, _, h⟩ hop => h.op hop) (fun _ _ => trivial) ⟨ws, rs, hreg⟩ hbefore
  refine replay_invariant (I := fun _ => True) (fun _ _ _ _ h hop => removed_op h hop)
    (fun _ _ => trivial) ?_ hafter
  rcases workerOp_cases hop with ⟨-, hno⟩ | ⟨j, ud, f, hop', -, -⟩ | ⟨j, w, hop', hw, hdo, rfl⟩
  · exact absurd rfl (hno i)
  · cases hop'
  · cases hop'
    obtain ⟨front, back, rfl⟩ := List.append_of_mem (hm.mem_of_live hw hdo)
    exact ⟨_, _, hm.cancel, by simp⟩

/-! ## The loop -/

/-- At the head of the loop: `rest` is still to be visited. -/
def Dispatching (ws : List Nat) (d : Dispatch) : Prop :=
  ∃ front rest rs, d.cursor = cursorAt d.looper (nextNode rest) ∧
    Registered d.looper (front ++ rest) rs ∧ Logged ws d.looper (front ++ rest) rest

theorem dispatching_enter (h : Registered l ws rs) : Dispatching ws (Dispatch.enter l) := by
  refine ⟨[], ws, rs, ?_, ⟨h.workerRing, h.removedRing, h.live, h.cancelled, h.known⟩,
    Logged.enter h⟩
  show cursorAt l (l.links.next .workerHdr) = cursorAt _ (nextNode ws)
  rw [h.workerRing.next_head]
  rfl

/-- What a pass does: the worker in front runs, its callback acts, and the loop goes on. -/
theorem Dispatching.pass {d d' : Dispatch} {ops : List WorkerOp} (h : Dispatching ws d)
    (hpass : dispatchPass d ops = some d') :
    ∃ i w f rest rs l, d.cursor = .visit (.worker i) (nextNode rest) ∧
      Underway ws (nextNode rest) (d.looper.note (.run i f w)) ∧
      Registered (d.looper.note (.run i f w)) rs l ∧
      replay workerOp (d.looper.note (.run i f w)) ops = some d'.looper ∧
      d'.cursor = cursorAt d'.looper (nextNode rest) := by
  obtain ⟨front, rest, rs, hcur, hreg, hlog⟩ := h
  cases rest with
  | nil =>
    have hfin : d.cursor = .finished := hcur
    simp [dispatchPass, hfin] at hpass
  | cons i rest =>
    have hring := hreg.workerRing
    rw [List.map_append, List.map_cons] at hring
    have hvisit : d.cursor = .visit (.worker i) (nextNode rest) := by
      rw [hcur]
      show Cursor.visit _ (d.looper.links.next (.worker i)) = _
      rw [hring.next_member]
      rfl
    obtain ⟨w, hw, hdo⟩ := hreg.live i (by simp)
    obtain ⟨f, hf⟩ := Option.isSome_iff_exists.mp hdo
    simp only [dispatchPass, hvisit, hw, hf] at hpass
    obtain ⟨l, hl, rfl⟩ := Option.map_eq_some_iff.mp hpass
    have hrun : Logged ws (d.looper.note (.run i f w.userdata)) ((front ++ [i]) ++ rest) rest := by
      rw [List.append_assoc]
      exact hlog.run (by simp) f w.userdata
    have hreg' : Registered d.looper ((front ++ [i]) ++ rest) rs := by
      rw [List.append_assoc]
      exact hreg
    exact ⟨i, w.userdata, f, rest, _, _, hvisit, ⟨_, rest, rs, rfl, hreg'.note _, hrun⟩,
      hreg'.note _, hl, rfl⟩

/-- As long as the saved node is kept, the loop stays on its way. -/
theorem Dispatching.step {d d' : Dispatch} {ops : List WorkerOp} (h : Dispatching ws d)
    (hkept : NextKept d ops) (hpass : dispatchPass d ops = some d') : Dispatching ws d' := by
  obtain ⟨i, ud, f, rest, -, -, hvisit, hunder, -, hrun, hcur⟩ := h.pass hpass
  have hout : Underway ws (nextNode rest) d'.looper := by
    refine replay_invariant (I := fun op => ∀ j, nextNode rest = .worker j →
      op ≠ .cancelWorker (some j)) (fun _ _ _ hne h hop => h.op hop hne) ?_ hunder hrun
    intro op hop j hj heq
    exact hkept _ j (by rw [hvisit, hj]) (heq ▸ hop)
  obtain ⟨front, rest', rs, hn, hreg, hlog⟩ := hout
  exact ⟨front, rest', rs, by rw [hcur, hn], hreg, hlog⟩

/-- And what it has done so far is right. -/
theorem Dispatching.ok {d : Dispatch} (h : Dispatching ws d) : DispatchOk ws d := by
  obtain ⟨front, rest, rs, hcur, hreg, hlog⟩ := h
  have hall : (runs d.looper.log ++ rest).Nodup := hlog.inOrder.nodup hlog.distinct
  constructor
  · intro pos n hvisit
    cases rest with
    | nil =>
      rw [hcur] at hvisit
      cases hvisit
    | cons i rest =>
      rw [hcur] at hvisit
      exact ⟨i, _, (Cursor.visit.inj hvisit).1.symm, by simp, hreg.workerRing⟩
  · rw [hcur]
    cases rest with
    | nil => exact fun h => by cases h
    | cons i rest => exact fun h => by cases h
  · exact (List.nodup_append.mp hall).1
  · exact (List.sublist_append_left _ _).trans hlog.inOrder
  · exact hlog.history
  · intro hfin w hw
    cases rest with
    | nil => simpa using hlog.complete w hw
    | cons i rest =>
      rw [hcur] at hfin
      cases hfin
  · refine ⟨hlog.kept, rs.length, fun fuel hfuel => ?_⟩
    obtain ⟨l, hl, -, hfrees⟩ := deleteRemovedWorker_spec hreg hfuel
    have hrel : releases l.log = rs := by
      rw [hfrees, releases_free, hlog.kept, List.nil_append]
    refine ⟨l, hl, ?_, fun i hi => ?_⟩
    · rw [hrel]
      exact hreg.removed_nodup
    · rw [hrel] at hi
      obtain ⟨w, hw, -⟩ := hreg.cancelled i hi
      rw [hw]
      rfl

/-- When the saved node is moved away, the loop is no longer on its ring. -/
theorem Dispatching.strays {d d' : Dispatch} {ops : List WorkerOp} (h : Dispatching ws d)
    (hkept : ¬NextKept d ops) (hpass : dispatchPass d ops = some d') : ¬DispatchOk ws d' := by
  obtain ⟨i, ud, f, rest, _, _, hvisit, -, hreg, hrun, hcur⟩ := h.pass hpass
  simp only [NextKept, not_forall, not_not] at hkept
  obtain ⟨pos, j, hpos, hj⟩ := hkept
  obtain ⟨-, hn⟩ := Cursor.visit.inj (hvisit.symm.trans hpos)
  obtain ⟨ws', rs', hreg', hj'⟩ := removed_of_cancel hreg hj hrun
  rw [hn] at hcur
  intro hok
  obtain ⟨k, xs, hk, hmem, hring⟩ := hok.onRing _ _ hcur
  obtain rfl : j = k := WorkerNode.worker.inj hk
  have hxs : xs = ws' :=
    List.map_injective_iff.mpr worker_injective (hring.unique hreg'.workerRing)
  exact hreg'.not_cancelled (hxs ▸ hmem) hj'

theorem runs_op {l' : NwcLooper} {op : WorkerOp} (hop : workerOp l op = some l') :
    runs l'.log = runs l.log := by
  rcases workerOp_cases hop with ⟨rfl, -⟩ | ⟨i, ud, f, -, -, rfl⟩ | ⟨i, w, -, -, -, rfl⟩
  · rfl
  · simp [NwcLooper.register, NwcLooper.note]
  · simp [NwcLooper.cancel, NwcLooper.note]

/-- Every pass runs a worker. -/
theorem Dispatching.count {es : List (List WorkerOp)} {d d' : Dispatch} (hd : Dispatching ws d)
    (hall : Along dispatchPass d es NextKept) (hrun : replay dispatchPass d es = some d') :
    Dispatching ws d' ∧
      (runs d'.looper.log).length = (runs d.looper.log).length + es.length := by
  induction es generalizing d with
  | nil =>
    cases hrun
    exact ⟨hd, rfl⟩
  | cons ops es ih =>
    obtain ⟨u, hu, hrest⟩ := replay_cons.mp hrun
    obtain ⟨hkept, hall'⟩ := (along_cons hu).mp hall
    obtain ⟨hd', hlen⟩ := ih (hd.step hkept hu) hall' hrest
    obtain ⟨i, ud, f, _, _, _, -, -, -, hops, -⟩ := hd.pass hu
    have hone : runs u.looper.log = runs d.looper.log ++ [i] := by
      have hkeep := replay_invariant (I := fun _ => True)
        (P := fun l => runs l.log = runs d.looper.log ++ [i])
        (fun _ _ _ _ h hop => (runs_op hop).trans h) (fun _ _ => trivial) ?_ hops
      · exact hkeep
      · simp [NwcLooper.note]
    rw [hone, List.length_append, List.length_singleton] at hlen
    refine ⟨hd', ?_⟩
    rw [hlen, List.length_cons]
    omega

/--
**When a dispatch survives its callbacks.**

From any two rings, and whatever the callbacks do: the call does what it is expected to do exactly
as long as no callback cancels the worker that comes right behind its own. It then ends after at
most as many passes as there are workers, those included that are registered on the way.
-/
theorem dispatchWorker_iff (h : Registered l ws rs) (behaviours : List (List WorkerOp))
    (d : Dispatch) (hrun : replay dispatchPass (Dispatch.enter l) behaviours = some d) :
    ((∀ u, Visits dispatchPass (Dispatch.enter l) behaviours u → DispatchOk ws u) ↔
      Along dispatchPass (Dispatch.enter l) behaviours NextKept) ∧
    (Along dispatchPass (Dispatch.enter l) behaviours NextKept →
      behaviours.length ≤ ws.length + (registrations d.looper.log).length) := by
  refine ⟨exact_rule (fun _ => Dispatching.ok) (fun _ _ _ hd hk hp => hd.step hk hp)
    (fun _ _ _ hd hk hp => hd.strays hk hp) (dispatching_enter h) hrun, fun hall => ?_⟩
  obtain ⟨hd, hcount⟩ := (dispatching_enter h).count hall hrun
  have hlen := hd.ok.inOrder.length_le
  rw [List.length_append] at hlen
  have hstart : (runs (Dispatch.enter l).looper.log).length = 0 := rfl
  omega

/-- A looper with the stat worker 0 and the send worker 1 of one connection. -/
def NwcLooper.twoWorkers : NwcLooper :=
  ((nwcLooperInit { next := id, prev := id }).register 0 (some 9) 100).register 1 (some 9) 101

theorem twoWorkers_registered : Registered NwcLooper.twoWorkers [0, 1] [] :=
  ((nwcLooperInit_registered _).register rfl _ _).register rfl _ _

/-- `nwc_connection_close` in the second worker. -/
theorem closeInSecond_dispatchOk : ∃ d,
    replay dispatchPass (Dispatch.enter NwcLooper.twoWorkers)
        [[], [.cancelWorker (some 0), .cancelWorker (some 1)]] = some d ∧
      d.cursor = .finished ∧ DispatchOk [0, 1] d := by
  obtain ⟨d, hd⟩ := Option.isSome_iff_exists.mp
    (show (replay dispatchPass (Dispatch.enter NwcLooper.twoWorkers)
      [[], [.cancelWorker (some 0), .cancelWorker (some 1)]]).isSome by decide)
  have hcur : (replay dispatchPass (Dispatch.enter NwcLooper.twoWorkers)
      [[], [.cancelWorker (some 0), .cancelWorker (some 1)]]).map Dispatch.cursor
        = some .finished := by decide
  rw [hd] at hcur
  refine ⟨d, hd, Option.some.inj hcur, ?_⟩
  refine (dispatchWorker_iff twoWorkers_registered _ d hd).1.mpr ?_ d
    ⟨_, List.prefix_rfl, hd⟩
  obtain ⟨u, hu, hrest⟩ := replay_cons.mp hd
  obtain ⟨v, hv, -⟩ := replay_cons.mp hrest
  refine (along_cons hu).mpr ⟨fun _ _ _ => List.not_mem_nil, (along_cons hv).mpr ⟨?_, ?_⟩⟩
  · -- the saved node is the head of the ring
    intro pos i hpos
    have hlast : (dispatchPass (Dispatch.enter NwcLooper.twoWorkers) []).map Dispatch.cursor
        = some (.visit (.worker 1) .workerHdr) := by decide
    rw [hu] at hlast
    rw [Option.some.inj hlast] at hpos
    cases hpos
  · exact along_nil _ _

/-- `nwc_connection_close` in the first worker: the loop takes a list head for a worker. -/
theorem closeInFirst_wild : ∃ d,
    replay dispatchPass (Dispatch.enter NwcLooper.twoWorkers)
        [[.cancelWorker (some 0), .cancelWorker (some 1)], [], []] = some d ∧
      d.cursor = .wild ∧ ¬DispatchOk [0, 1] d := by
  obtain ⟨d, hd⟩ := Option.isSome_iff_exists.mp
    (show (replay dispatchPass (Dispatch.enter NwcLooper.twoWorkers)
      [[.cancelWorker (some 0), .cancelWorker (some 1)], [], []]).isSome by decide)
  have hcur : (replay dispatchPass (Dispatch.enter NwcLooper.twoWorkers)
      [[.cancelWorker (some 0), .cancelWorker (some 1)], [], []]).map Dispatch.cursor
        = some .wild := by decide
  rw [hd] at hcur
  have hwild : d.cursor = .wild := Option.some.inj hcur
  exact ⟨d, hd, hwild, fun hok => hok.notWild hwild⟩

end Nwchecker
