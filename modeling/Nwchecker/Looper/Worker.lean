import Nwchecker.Lib.Machine
import Nwchecker.ListHead

/-!
# The workers of a looper

`nwc_looper.c`: the ring of registered workers, the ring of cancelled ones, the dispatch loop over
the first and the clean-up of the second.

A callback may register and cancel workers while the loop is on its way through the ring. What a
callback does is a script of such calls, one script for each pass of the loop, so that a run of
`dispatchPass` is one call of `nwc_looper_dispatch_worker` under any behaviour of the callbacks.
-/

namespace Nwchecker

open Ring Machine

/-! ## Workers -/

/-- The `struct list_head`s of a looper and its workers. -/
inductive WorkerNode where
  | null
  | workerHdr
  | removedWorkerHdr
  /-- `worker_entry` of the worker at the address `i` -/
  | worker (i : Nat)
  deriving DecidableEq, Repr

/-- `struct nwc_worker` without its node. `none` is `NULL`. -/
structure NwcWorker where
  userdata : Option Nat
  workerDo : Option Nat
  deriving DecidableEq, Repr

/-- What happens to workers. -/
inductive WorkerMark where
  | register (i : Nat)
  | cancel (i : Nat)
  /-- `entry->worker_do(entry->userdata)` -/
  | run (i workerDo : Nat) (userdata : Option Nat)
  | free (i : Nat)
  deriving DecidableEq, Repr

/-- The workers in `struct nwc_looper`, with the memory they live in and a log. -/
structure NwcLooper where
  links : Links WorkerNode
  /-- `none` is an address where no worker is allocated. -/
  workers : Nat → Option NwcWorker
  log : List WorkerMark

namespace NwcLooper

def note (l : NwcLooper) (m : WorkerMark) : NwcLooper := { l with log := l.log ++ [m] }

/-- `nwc_looper_register_worker` of `nwc_looper.c`, where `malloc` gave the address `i`. -/
def register (l : NwcLooper) (i : Nat) (userdata : Option Nat) (workerDo : Nat) : NwcLooper :=
  { l with
    links := listAddTail l.links (.worker i) .workerHdr
    workers :=
      Function.update l.workers i (some { userdata := userdata, workerDo := some workerDo }) }.note
    (.register i)

/-- `nwc_looper_cancel_worker` of `nwc_looper.c` -/
def cancel (l : NwcLooper) (i : Nat) : NwcLooper :=
  { l with
    links := listAddTail (listDel l.links .null (.worker i)) (.worker i) .removedWorkerHdr
    workers := Function.update l.workers i (some { userdata := none, workerDo := none }) }.note
    (.cancel i)

/-- `list_del(pos); free(entry);` -/
def release (l : NwcLooper) (i : Nat) : NwcLooper :=
  { l with
    links := listDel l.links .null (.worker i)
    workers := Function.update l.workers i none }.note (.free i)

end NwcLooper

/-- `nwc_looper_init`. No worker has been allocated yet. -/
def nwcLooperInit (links : Links WorkerNode) : NwcLooper where
  links := initListHead (initListHead links .workerHdr) .removedWorkerHdr
  workers := fun _ => none
  log := []

/-! ## Calls -/

/-- The calls of `nwc.c`. `none` is `NULL` for a function and `INVALID_HANDLE` for a worker. -/
inductive WorkerOp where
  | registerWorker (malloc : Nat) (userdata workerDo : Option Nat)
  | cancelWorker (wkHandle : Option Nat)
  deriving DecidableEq, Repr

/--
One call. `none` is a call that the caller must not make: only registered workers are cancelled,
and `malloc` does not answer an address that is in use.
-/
def workerOp (l : NwcLooper) : WorkerOp → Option NwcLooper
  | .registerWorker _ _ none => some l
  | .registerWorker malloc userdata (some workerDo) =>
    if l.workers malloc = none then some (l.register malloc userdata workerDo) else none
  | .cancelWorker none => some l
  | .cancelWorker (some i) =>
    match l.workers i with
    | some w => if w.workerDo.isSome then some (l.cancel i) else none
    | none => none

/-! ## The dispatch loop -/

/-- Where `list_for_each_safe` is. -/
inductive Cursor where
  | visit (pos n : WorkerNode)
  /-- `pos == &looper->worker_hdr` -/
  | finished
  /-- The loop takes something for a worker that is none. -/
  | wild
  deriving DecidableEq, Repr

structure Dispatch where
  looper : NwcLooper
  cursor : Cursor

/-- `n = pos->next` and the test of the loop. -/
def cursorAt (l : NwcLooper) (pos : WorkerNode) : Cursor :=
  if pos = .workerHdr then .finished else .visit pos (l.links.next pos)

/-- The loop is entered. The log starts here. -/
def Dispatch.enter (l : NwcLooper) : Dispatch where
  looper := { l with log := [] }
  cursor := cursorAt l (l.links.next .workerHdr)

/-- One pass of the loop of `nwc_looper_dispatch_worker`, in which the callback calls `ops`. -/
def dispatchPass (d : Dispatch) (ops : List WorkerOp) : Option Dispatch :=
  match d.cursor with
  | .visit (.worker i) n =>
    match d.looper.workers i with
    | none => some { d with cursor := .wild }
    | some entry =>
      match entry.workerDo with
      | some workerDo =>
        (replay workerOp (d.looper.note (.run i workerDo entry.userdata)) ops).map
          fun l => { looper := l, cursor := cursorAt l n }
      | none => some { looper := d.looper.release i, cursor := cursorAt (d.looper.release i) n }
  | .visit _ _ => some { d with cursor := .wild }
  | _ => none

/-- The body of the loop of `nwc_looper_delete_removed_worker`. Only workers are in that ring. -/
def deletePass (pos : WorkerNode) (l : NwcLooper) : NwcLooper :=
  match pos with
  | .worker i => l.release i
  | _ => l

/-- `nwc_looper_delete_removed_worker` -/
def nwcLooperDeleteRemovedWorker (fuel : Nat) (l : NwcLooper) : Option NwcLooper :=
  listForEachSafe NwcLooper.links .removedWorkerHdr deletePass fuel
    (l.links.next .removedWorkerHdr) (l.links.next (l.links.next .removedWorkerHdr)) l

/-! ## What a call can do -/

/-- The ways in which a call ends. -/
theorem workerOp_cases {l l' : NwcLooper} {op : WorkerOp} (h : workerOp l op = some l') :
    l' = l ∧ (∀ i, op ≠ .cancelWorker (some i)) ∨
      (∃ i userdata workerDo, op = .registerWorker i userdata (some workerDo) ∧
        l.workers i = none ∧ l' = l.register i userdata workerDo) ∨
      ∃ i w, op = .cancelWorker (some i) ∧ l.workers i = some w ∧ w.workerDo.isSome = true ∧
        l' = l.cancel i := by
  cases op with
  | registerWorker malloc userdata workerDo =>
    cases workerDo with
    | none => exact Or.inl ⟨(Option.some.inj h).symm, fun i hi => by cases hi⟩
    | some f =>
      simp only [workerOp] at h
      split at h
      · next hfree =>
        exact Or.inr (Or.inl ⟨malloc, userdata, f, rfl, hfree, (Option.some.inj h).symm⟩)
      · cases h
  | cancelWorker wkHandle =>
    cases wkHandle with
    | none => exact Or.inl ⟨(Option.some.inj h).symm, fun i hi => by cases hi⟩
    | some i =>
      simp only [workerOp] at h
      split at h
      · next w hw =>
        split at h
        · next hdo => exact Or.inr (Or.inr ⟨i, w, rfl, hw, hdo, (Option.some.inj h).symm⟩)
        · cases h
      · cases h

/-! ## Both rings -/

/-- The looper has the workers `ws` in its ring, and the cancelled ones `rs` in the other. -/
structure Registered (l : NwcLooper) (ws rs : List Nat) : Prop where
  workerRing : IsRing l.links .workerHdr (ws.map .worker)
  removedRing : IsRing l.links .removedWorkerHdr (rs.map .worker)
  live : ∀ i ∈ ws, ∃ w, l.workers i = some w ∧ w.workerDo.isSome = true
  cancelled : ∀ i ∈ rs, ∃ w, l.workers i = some w ∧ w.workerDo = none
  known : ∀ i w, l.workers i = some w → i ∈ ws ∨ i ∈ rs

variable {l : NwcLooper} {ws rs front back : List Nat}

theorem worker_injective : Function.Injective WorkerNode.worker := fun _ _ h =>
  WorkerNode.worker.inj h

theorem Registered.nodup (h : Registered l ws rs) : ws.Nodup :=
  ((List.nodup_cons.mp h.workerRing.nodup).2).of_map _

theorem Registered.removed_nodup (h : Registered l ws rs) : rs.Nodup :=
  ((List.nodup_cons.mp h.removedRing.nodup).2).of_map _

theorem Registered.not_cancelled (h : Registered l ws rs) {i : Nat} (hi : i ∈ ws) : i ∉ rs := by
  intro hr
  obtain ⟨w, hw, hdo⟩ := h.live i hi
  obtain ⟨w', hw', hdo'⟩ := h.cancelled i hr
  rw [hw] at hw'
  cases hw'
  rw [hdo'] at hdo
  cases hdo

/-- A worker with a function is in the ring. -/
theorem Registered.mem_of_live (h : Registered l ws rs) {i : Nat} {w : NwcWorker}
    (hw : l.workers i = some w) (hdo : w.workerDo.isSome = true) : i ∈ ws := by
  rcases h.known i w hw with hi | hi
  · exact hi
  · obtain ⟨w', hw', hdo'⟩ := h.cancelled i hi
    rw [hw] at hw'
    cases hw'
    rw [hdo'] at hdo
    cases hdo

/-- The nodes of the two rings have nothing in common. -/
theorem Registered.disjoint (h : Registered l ws rs) :
    ∀ v ∈ WorkerNode.removedWorkerHdr :: rs.map WorkerNode.worker,
      v ∉ WorkerNode.workerHdr :: ws.map WorkerNode.worker := by
  intro v hv hv'
  rcases List.mem_cons.mp hv with rfl | hv
  · simp at hv'
  · obtain ⟨i, hi, rfl⟩ := List.mem_map.mp hv
    simp only [List.mem_cons, reduceCtorEq, false_or, List.mem_map, WorkerNode.worker.injEq,
      exists_eq_right] at hv'
    exact h.not_cancelled hv' hi

theorem Registered.note (h : Registered l ws rs) (m : WorkerMark) : Registered (l.note m) ws rs :=
  ⟨h.workerRing, h.removedRing, h.live, h.cancelled, h.known⟩

theorem nwcLooperInit_registered (links : Links WorkerNode) :
    Registered (nwcLooperInit links) [] [] where
  workerRing := by
    refine (initListHead_isRing links .workerHdr).of_agree fun v hv => ?_
    have hne : v ≠ WorkerNode.removedWorkerHdr := by
      rw [List.mem_singleton.mp hv]
      decide
    simp [nwcLooperInit, initListHead, Links.setNext, Links.setPrev, Function.update_of_ne, hne]
  removedRing := initListHead_isRing _ _
  live := fun i hi => absurd hi List.not_mem_nil
  cancelled := fun i hi => absurd hi List.not_mem_nil
  known := fun i w hw => by cases hw

theorem Registered.register (h : Registered l ws rs) {i : Nat} (hi : l.workers i = none)
    (userdata : Option Nat) (workerDo : Nat) :
    Registered (l.register i userdata workerDo) (ws ++ [i]) rs := by
  have hws : i ∉ ws := by
    intro hm
    obtain ⟨w, hw, -⟩ := h.live i hm
    rw [hi] at hw
    cases hw
  have hrs : i ∉ rs := by
    intro hm
    obtain ⟨w, hw, -⟩ := h.cancelled i hm
    rw [hi] at hw
    cases hw
  constructor
  · rw [List.map_append]
    exact listAddTail_isRing h.workerRing (by simpa using hws)
  · exact listAddTail_other h.workerRing h.removedRing h.disjoint (by simpa using hrs)
  · intro j hj
    by_cases hji : j = i
    · exact ⟨_, by rw [hji]; exact Function.update_self .., rfl⟩
    · obtain ⟨w, hw, hdo⟩ := h.live j (by simpa [hji] using hj)
      exact ⟨w, (Function.update_of_ne hji ..).trans hw, hdo⟩
  · intro j hj
    obtain ⟨w, hw, hdo⟩ := h.cancelled j hj
    have hji : j ≠ i := by
      rintro rfl
      exact hrs hj
    exact ⟨w, (Function.update_of_ne hji ..).trans hw, hdo⟩
  · intro j w hw
    by_cases hji : j = i
    · exact Or.inl (by simp [hji])
    · rcases h.known j w ((Function.update_of_ne hji ..).symm.trans hw) with hj | hj
      · exact Or.inl (by simp [hj])
      · exact Or.inr hj

/-- A cancelled worker goes from the one ring to the end of the other. -/
theorem Registered.cancel {i : Nat} (h : Registered l (front ++ i :: back) rs) :
    Registered (l.cancel i) (front ++ back) (rs ++ [i]) := by
  have hnd := h.nodup
  have hrs : i ∉ rs := h.not_cancelled (by simp)
  have hring := h.workerRing
  rw [List.map_append, List.map_cons] at hring
  have hdisj := h.disjoint
  rw [List.map_append, List.map_cons] at hdisj
  -- the two steps of the function, for both rings
  have hworker := listDel_isRing .null hring
  have hremoved := listDel_other .null hring h.removedRing hdisj
  have hdisj' : ∀ v ∈ WorkerNode.workerHdr :: (front.map WorkerNode.worker
      ++ back.map WorkerNode.worker), v ∉ WorkerNode.removedWorkerHdr :: rs.map .worker := by
    intro v hv hv'
    refine hdisj v hv' ?_
    rcases List.mem_cons.mp hv with rfl | hv
    · exact List.mem_cons_self
    · refine List.mem_cons_of_mem _ ?_
      rcases List.mem_append.mp hv with hv | hv
      · exact List.mem_append_left _ hv
      · exact List.mem_append_right _ (List.mem_cons_of_mem _ hv)
  have hnot : i ∉ front ++ back := by grind
  have hne : ∀ j, j ≠ i → (l.cancel i).workers j = l.workers j := fun j hj =>
    Function.update_of_ne hj ..
  have hself : (l.cancel i).workers i = some { userdata := none, workerDo := none } :=
    Function.update_self ..
  constructor
  · rw [List.map_append]
    refine listAddTail_other hremoved hworker hdisj' ?_
    simpa using hnot
  · rw [List.map_append]
    exact listAddTail_isRing hremoved (by simpa using hrs)
  · intro j hj
    rw [hne j (by rintro rfl; exact hnot hj)]
    exact h.live j (by grind)
  · intro j hj
    by_cases hji : j = i
    · subst hji
      exact ⟨_, hself, rfl⟩
    · rw [hne j hji]
      exact h.cancelled j (by simpa [hji] using hj)
  · intro j w hw
    by_cases hji : j = i
    · exact Or.inr (by simp [hji])
    · rw [hne j hji] at hw
      rcases h.known j w hw with hj | hj
      · exact Or.inl (by grind)
      · exact Or.inr (by simp [hj])

/-- A call keeps both rings in shape. -/
theorem Registered.op {l' : NwcLooper} {op : WorkerOp} (h : Registered l ws rs)
    (hop : workerOp l op = some l') : ∃ ws' rs', Registered l' ws' rs' := by
  rcases workerOp_cases hop with ⟨rfl, -⟩ | ⟨i, ud, f, -, hfree, rfl⟩ | ⟨i, w, -, hw, hdo, rfl⟩
  · exact ⟨ws, rs, h⟩
  · exact ⟨_, _, h.register hfree ud f⟩
  · obtain ⟨front, back, rfl⟩ := List.append_of_mem (h.mem_of_live hw hdo)
    exact ⟨_, _, h.cancel⟩

end Nwchecker
