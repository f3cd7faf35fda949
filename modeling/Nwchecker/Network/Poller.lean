import Mathlib.Logic.Function.Basic
import Nwchecker.Network.SocketHandler

/-!
# A pass over the selected keys

`Poller.poll` behind `select`. A callback may close handlers, whose keys are cancelled then and stay
in the selected set until the iterator comes to them. The first question to such a key throws, and
nothing up to the worker catches that.

`poll_clean_iff` says which closes do no harm: those of a handler whose key is not still to come, as
far as it is no `Acceptor`, and in `onConnected` not the handler's own.
-/

namespace Nwchecker.Network

open Java

inductive Kind where
  /-- `Acceptor`, which has no `sc_`. -/
  | acceptor
  | tcp
  deriving DecidableEq, Repr

inductive Callback where
  | onAccept
  | onConnected
  | onRead
  | onWrite
  | onClose
  deriving DecidableEq, Repr

/-- What `finishConnect` comes to. -/
inductive Finish where
  | done
  | notYet
  /-- An `IOException`. The channel is closed then. -/
  | failed
  deriving DecidableEq, Repr

/-- What a pass meets. The handlers that a callback closes are given in their order. -/
structure Setting (ι : Type) where
  kind : ι → Kind
  ready : ι → Ops
  /-- `ssc_.accept()` does not throw. -/
  accepts : ι → Bool
  finishConnect : ι → Finish
  closes : ι → Callback → List ι

structure Handler where
  sk : SelectionKey
  /-- `close` has been called. -/
  closed : Bool
  deriving DecidableEq, Repr

/-- A call of a callback. -/
structure Call (ι : Type) where
  handler : ι
  callback : Callback
  /-- The handler is not closed. -/
  opened : Bool
  deriving DecidableEq, Repr

/-- The handlers, which their keys stand for, and what has happened. -/
structure Poller (ι : Type) where
  handlers : ι → Handler
  selectedKeys : List ι
  /-- What the iterator has returned. -/
  visited : List ι
  calls : List (Call ι)

namespace Poller

variable {ι : Type} [DecidableEq ι]

/-! ## The code -/

def skip : Stmt (Poller ι) := fun s => (s, none)

def setHandler (s : Poller ι) (i : ι) (h : Handler) : Poller ι :=
  { s with handlers := Function.update s.handlers i h }

/-- `SocketHandler.close`. The exceptions of `sc_.close()` are caught, but for that of a `null`. -/
def close (w : Setting ι) (i : ι) : Stmt (Poller ι) := fun s =>
  (s.setHandler i { sk := (s.handlers i).sk.cancel, closed := true },
    match w.kind i with
    | .acceptor => some .nullPointer
    | .tcp => none)

def closeAll (w : Setting ι) : List ι → Stmt (Poller ι)
  | [] => skip
  | c :: cs => (close w c).andThen (closeAll w cs)

/-- The call of a callback, which closes what it likes. -/
def callback (w : Setting ι) (i : ι) (cb : Callback) : Stmt (Poller ι) := fun s =>
  closeAll w (w.closes i cb)
    { s with
      calls := s.calls ++ [{ handler := i, callback := cb, opened := !(s.handlers i).closed }] }

def changeKey (i : ι) (f : SelectionKey → Except RuntimeException SelectionKey) :
    Stmt (Poller ι) := fun s =>
  match f (s.handlers i).sk with
  | .error e => (s, some e)
  | .ok sk => (s.setHandler i { s.handlers i with sk := sk }, none)

/-- `Acceptor.handle_accept`, which catches every exception. -/
def handleAccept (w : Setting ι) (i : ι) : Stmt (Poller ι) :=
  match w.kind i with
  | .acceptor => if w.accepts i then (callback w i .onAccept).attempt else skip
  | .tcp => skip

/-- `TcpHandler.handle_connected`, which catches an `IOException`. -/
def handleConnected (w : Setting ι) (i : ι) : Stmt (Poller ι) :=
  match w.kind i with
  | .acceptor => skip
  | .tcp =>
    match w.finishConnect i with
    | .done =>
      (callback w i .onConnected).andThen (changeKey i fun sk => orInterest sk OP_READ)
    | .notYet => skip
    | .failed => (changeKey i fun sk => .ok sk.cancel).andThen (callback w i .onClose)

/-- `TcpHandler.handle_read` -/
def handleRead (w : Setting ι) (i : ι) : Stmt (Poller ι) :=
  match w.kind i with
  | .acceptor => skip
  | .tcp => callback w i .onRead

/-- `TcpHandler.handle_write` -/
def handleWrite (w : Setting ι) (i : ι) : Stmt (Poller ι) :=
  match w.kind i with
  | .acceptor => skip
  | .tcp => (changeKey i fun sk => maskInterest sk OP_WRITE).andThen (callback w i .onWrite)

def handle (w : Setting ι) (k : ι) : Option Method → Stmt (Poller ι)
  | some .handleAccept => handleAccept w k
  | some .handleConnected => handleConnected w k
  | some .handleRead => handleRead w k
  | some .handleWrite => handleWrite w k
  | none => skip

/-- The body of the loop. -/
def visit (w : Setting ι) (k : ι) : Stmt (Poller ι) := fun s =>
  match question (s.handlers k).sk (w.ready k) with
  | .error e => (s, some e)
  | .ok method => handle w k method s

/-- `keyIterator.next()` -/
def next (k : ι) : Stmt (Poller ι) := fun s => ({ s with visited := s.visited ++ [k] }, none)

/-- `keyIterator.remove()` -/
def remove (k : ι) : Stmt (Poller ι) := fun s =>
  ({ s with selectedKeys := s.selectedKeys.erase k }, none)

/-- The loop, for the keys that the iterator has still to return. -/
def pollKeys (w : Setting ι) : List ι → Stmt (Poller ι)
  | [] => skip
  | k :: keys => (next k).andThen ((visit w k).andThen ((remove k).andThen (pollKeys w keys)))

end Poller

/-- What `select` leaves: a set of keys that are not cancelled, in the order of its iterator. -/
structure Selected (ι : Type) where
  handlers : ι → Handler
  keys : List ι
  nodup : keys.Nodup
  valid : ∀ k ∈ keys, (handlers k).sk.valid = true ∧ (handlers k).closed = false

namespace Poller

section Closes

variable {ι : Type}

/-! ## What may be closed -/

/-- The closes that are come to: the one of an `Acceptor` throws. -/
def performed (w : Setting ι) : List ι → List ι
  | [] => []
  | c :: cs => if w.kind c = .acceptor then [c] else c :: performed w cs

/-- The callback that is called for a key. -/
def called (w : Setting ι) (k : ι) : Option Callback :=
  match dispatch (w.ready k), w.kind k with
  | some .handleAccept, .acceptor => if w.accepts k then some .onAccept else none
  | some .handleConnected, .tcp =>
    match w.finishConnect k with
    | .done => some .onConnected
    | .notYet => none
    | .failed => some .onClose
  | some .handleRead, .tcp => some .onRead
  | some .handleWrite, .tcp => some .onWrite
  | _, _ => none

/-- The handlers that are closed when a key is visited. -/
def closedBy (w : Setting ι) (k : ι) : List ι :=
  match called w k with
  | none => []
  | some cb => performed w (w.closes k cb)

/-- A callback that nothing escapes from. -/
def Contained (w : Setting ι) (k : ι) (cb : Callback) : Prop :=
  (cb ≠ .onAccept → ∀ c ∈ w.closes k cb, w.kind c = .tcp) ∧
    (cb = .onConnected → k ∉ w.closes k cb)

/-- No handler is closed before its key is visited, and nothing escapes from a callback. -/
def Harmless (w : Setting ι) : List ι → Prop
  | [] => True
  | k :: keys => (∀ cb ∈ called w k, Contained w k cb) ∧ (∀ c ∈ closedBy w k, c ∉ keys) ∧
      Harmless w keys

theorem performed_of_tcp {w : Setting ι} {cs : List ι} (h : ∀ c ∈ cs, w.kind c = .tcp) :
    performed w cs = cs := by
  induction cs with
  | nil => rfl
  | cons c cs ih =>
    obtain ⟨hc, hcs⟩ := List.forall_mem_cons.mp h
    rw [performed, if_neg (by rw [hc]; decide), ih hcs]

theorem contained_iff {w : Setting ι} {k : ι} {cb : Callback} (hconnected : cb ≠ .onConnected)
    (haccept : cb ≠ .onAccept) :
    Contained w k cb ↔ ∀ c ∈ w.closes k cb, w.kind c = .tcp :=
  ⟨fun h => h.1 haccept, fun h => ⟨fun _ => h, fun h' => absurd h' hconnected⟩⟩

/-- What happens when a key is visited: which other handlers are closed, and what is called. -/
structure Visits (k : ι) (cs : List ι) (s t : Poller ι) : Prop where
  visited : t.visited = s.visited
  selectedKeys : t.selectedKeys = s.selectedKeys
  calls : ∀ c ∈ t.calls, c ∈ s.calls ∨ c.opened = !(s.handlers k).closed
  cancelled : ∀ j ∈ cs, j ≠ k → (t.handlers j).sk.valid = false
  others : ∀ j, j ∉ cs → j ≠ k → t.handlers j = s.handlers j

theorem Visits.refl (k : ι) (s : Poller ι) : Visits k [] s s where
  visited := rfl
  selectedKeys := rfl
  calls := fun _ hc => .inl hc
  cancelled := fun _ hj => absurd hj List.not_mem_nil
  others := fun _ _ _ => rfl

end Closes

variable {ι : Type} [DecidableEq ι]

/-- `Poller.poll`, and what it throws into the worker. -/
def poll (w : Setting ι) (sel : Selected ι) : Poller ι × Option RuntimeException :=
  pollKeys w sel.keys
    { handlers := sel.handlers, selectedKeys := sel.keys, visited := [], calls := [] }

/-- Every key is visited, no callback of a closed handler is called, and nothing is left over. -/
structure Clean (sel : Selected ι) (r : Poller ι × Option RuntimeException) : Prop where
  visited : r.1.visited = sel.keys
  opened : ∀ c ∈ r.1.calls, c.opened = true
  emptied : r.1.selectedKeys = []
  quiet : r.2 = none

variable {w : Setting ι} {s t u : Poller ι} {i j k : ι} {cs : List ι}

/-! ## Closing -/

@[simp] theorem setHandler_self (s : Poller ι) (i : ι) (h : Handler) :
    (s.setHandler i h).handlers i = h := by
  show Function.update s.handlers i h i = h
  exact Function.update_self i h s.handlers

theorem setHandler_other (s : Poller ι) (h : Handler) (hne : j ≠ i) :
    (s.setHandler i h).handlers j = s.handlers j := by
  show Function.update s.handlers i h j = s.handlers j
  exact Function.update_of_ne hne h s.handlers

theorem close_handlers_self (w : Setting ι) (i : ι) (s : Poller ι) :
    ((close w i s).1.handlers i).sk.valid = false := by
  simp [close, SelectionKey.cancel]

theorem close_handlers_other (h : j ≠ i) : (close w i s).1.handlers j = s.handlers j :=
  setHandler_other s _ h

theorem closeAll_none : (closeAll w cs s).2 = none ↔ ∀ c ∈ cs, w.kind c = .tcp := by
  induction cs generalizing s with
  | nil => simp [closeAll, skip]
  | cons c cs ih =>
    rw [closeAll, Stmt.andThen_none, ih, List.forall_mem_cons]
    cases hkind : w.kind c with
    | acceptor => simp [close, hkind]
    | tcp => simp [close, hkind]

theorem closeAll_same (cs : List ι) (s : Poller ι) : (closeAll w cs s).1.visited = s.visited ∧
    (closeAll w cs s).1.selectedKeys = s.selectedKeys ∧ (closeAll w cs s).1.calls = s.calls := by
  induction cs generalizing s with
  | nil => exact ⟨rfl, rfl, rfl⟩
  | cons c cs ih =>
    by_cases hnone : (close w c s).2 = none
    · rw [closeAll, Stmt.andThen_of_none hnone]
      exact ih (close w c s).1
    · rw [closeAll, Stmt.andThen_of_ne hnone]
      exact ⟨rfl, rfl, rfl⟩

/-- The handlers that are closed lose their keys, and the others stay as they are. -/
theorem closeAll_handlers (j : ι) (cs : List ι) (s : Poller ι) :
    (j ∈ performed w cs → ((closeAll w cs s).1.handlers j).sk.valid = false) ∧
      (j ∉ performed w cs → (closeAll w cs s).1.handlers j = s.handlers j) := by
  induction cs generalizing s with
  | nil => exact ⟨fun h => absurd h List.not_mem_nil, fun _ => rfl⟩
  | cons c cs ih =>
    cases hkind : w.kind c with
    | acceptor =>
      have hthrows : (close w c s).2 ≠ none := by simp [close, hkind]
      rw [closeAll, Stmt.andThen_of_ne hthrows, performed, if_pos hkind]
      refine ⟨fun h => ?_, fun h => close_handlers_other (by simpa using h)⟩
      rw [List.mem_singleton.mp h]
      exact close_handlers_self w c s
    | tcp =>
      have hnone : (close w c s).2 = none := by simp [close, hkind]
      obtain ⟨hcancelled, hother⟩ := ih (close w c s).1
      rw [closeAll, Stmt.andThen_of_none hnone, performed, if_neg (by rw [hkind]; decide)]
      refine ⟨fun h => ?_, fun h => ?_⟩
      · by_cases hcs : j ∈ performed w cs
        · exact hcancelled hcs
        · rw [hother hcs]
          rcases List.mem_cons.mp h with rfl | h
          · exact close_handlers_self w j s
          · exact absurd h hcs
      · obtain ⟨hc, hcs⟩ := List.ne_and_not_mem_of_not_mem_cons h
        rw [hother hcs, close_handlers_other hc]

/-! ## The key of a handler -/

theorem changeKey_fst (k : ι) (f : SelectionKey → Except RuntimeException SelectionKey)
    (s : Poller ι) : ∃ h, (changeKey k f s).1 = s.setHandler k h ∧
      h.closed = (s.handlers k).closed := by
  unfold changeKey
  split
  · exact ⟨s.handlers k, by rw [setHandler, Function.update_eq_self], rfl⟩
  · next sk _ => exact ⟨{ s.handlers k with sk := sk }, rfl, rfl⟩

theorem changeKey_none {f : SelectionKey → Except RuntimeException SelectionKey} {sk : SelectionKey}
    (h : f (s.handlers k).sk = .ok sk) : (changeKey k f s).2 = none := by
  rw [changeKey, h]

/-- A handler that has been closed can register no event. -/
theorem register_none :
    (changeKey k (fun sk => orInterest sk OP_READ) s).2 = none ↔
      (s.handlers k).sk.valid = true := by
  unfold changeKey
  cases hvalid : (s.handlers k).sk.valid with
  | true => simp [orInterest_valid hvalid]
  | false => simp [orInterest_cancelled hvalid]

/-! ## A visit -/

theorem callback_handlers (w : Setting ι) (k : ι) (cb : Callback) (s : Poller ι) (j : ι) :
    (j ∈ performed w (w.closes k cb) → ((callback w k cb s).1.handlers j).sk.valid = false) ∧
      (j ∉ performed w (w.closes k cb) → (callback w k cb s).1.handlers j = s.handlers j) :=
  closeAll_handlers j _ _

theorem callback_visits (w : Setting ι) (k : ι) (cb : Callback) (s : Poller ι) :
    Visits k (performed w (w.closes k cb)) s (callback w k cb s).1 where
  visited := (closeAll_same _ _).1
  selectedKeys := (closeAll_same _ _).2.1
  calls := by
    intro c hc
    rw [callback, (closeAll_same _ _).2.2] at hc
    rcases List.mem_append.mp hc with hc | hc
    · exact .inl hc
    · rw [List.mem_singleton.mp hc]
      exact .inr rfl
  cancelled := fun j hj _ => (callback_handlers w k cb s j).1 hj
  others := fun j hj _ => (callback_handlers w k cb s j).2 hj

theorem Visits.changed (h : Visits k cs s t)
    (f : SelectionKey → Except RuntimeException SelectionKey) :
    Visits k cs s (changeKey k f t).1 := by
  obtain ⟨h', heq, -⟩ := changeKey_fst k f t
  rw [heq]
  exact
    { visited := h.visited
      selectedKeys := h.selectedKeys
      calls := h.calls
      cancelled := fun j hj hne => by
        rw [setHandler_other _ _ hne]
        exact h.cancelled j hj hne
      others := fun j hj hne => by
        rw [setHandler_other _ _ hne]
        exact h.others j hj hne }

/-- A callback behind a change of the key. -/
theorem changed_callback (w : Setting ι) (k : ι) (cb : Callback)
    (f : SelectionKey → Except RuntimeException SelectionKey) (s : Poller ι) :
    Visits k (performed w (w.closes k cb)) s (callback w k cb (changeKey k f s).1).1 := by
  obtain ⟨h', heq, hclosed⟩ := changeKey_fst k f s
  have h := callback_visits w k cb (changeKey k f s).1
  rw [heq] at h ⊢
  exact
    { visited := h.visited
      selectedKeys := h.selectedKeys
      calls := fun c hc => by
        have := h.calls c hc
        rwa [setHandler_self, hclosed] at this
      cancelled := h.cancelled
      others := fun j hj hne => by
        rw [h.others j hj hne, setHandler_other _ _ hne] }

theorem callback_none {cb : Callback} :
    (callback w k cb s).2 = none ↔ ∀ c ∈ w.closes k cb, w.kind c = .tcp :=
  closeAll_none

/-- `onConnected`, and the registration behind it. -/
theorem connected_none (hvalid : (s.handlers k).sk.valid = true) :
    ((callback w k .onConnected).andThen (changeKey k fun sk => orInterest sk OP_READ) s).2 = none ↔
      Contained w k .onConnected := by
  rw [Stmt.andThen_none, callback_none, register_none]
  constructor
  · rintro ⟨htcp, hstays⟩
    refine ⟨fun _ => htcp, fun _ hk => ?_⟩
    have hcancelled := (callback_handlers w k .onConnected s k).1 (by rwa [performed_of_tcp htcp])
    rw [hcancelled] at hstays
    cases hstays
  · rintro ⟨htcp, hk⟩
    have hall := htcp (by decide)
    refine ⟨hall, ?_⟩
    have hsame := (callback_handlers w k .onConnected s k).2 (by
      rw [performed_of_tcp hall]
      exact hk rfl)
    rw [hsame]
    exact hvalid

theorem connected_visits (w : Setting ι) (k : ι) (s : Poller ι) :
    Visits k (performed w (w.closes k .onConnected)) s
      ((callback w k .onConnected).andThen (changeKey k fun sk => orInterest sk OP_READ) s).1 := by
  by_cases hnone : (callback w k .onConnected s).2 = none
  · rw [Stmt.andThen_of_none hnone]
    exact (callback_visits w k .onConnected s).changed _
  · rw [Stmt.andThen_of_ne hnone]
    exact callback_visits w k .onConnected s

theorem handle_visits (w : Setting ι) (hvalid : (s.handlers k).sk.valid = true) :
    Visits k (closedBy w k) s (handle w k (dispatch (w.ready k)) s).1 := by
  rw [closedBy, called]
  cases dispatch (w.ready k) with
  | none => exact Visits.refl k s
  | some method =>
    cases method with
    | handleAccept =>
      rw [handle, handleAccept]
      cases w.kind k with
      | acceptor =>
        cases w.accepts k with
        | true => exact callback_visits w k .onAccept s
        | false => exact Visits.refl k s
      | tcp => exact Visits.refl k s
    | handleConnected =>
      rw [handle, handleConnected]
      cases w.kind k with
      | acceptor => exact Visits.refl k s
      | tcp =>
        cases w.finishConnect k with
        | done => exact connected_visits w k s
        | notYet => exact Visits.refl k s
        | failed => exact changed_callback w k .onClose (fun sk => .ok sk.cancel) s
    | handleRead =>
      rw [handle, handleRead]
      cases w.kind k with
      | acceptor => exact Visits.refl k s
      | tcp => exact callback_visits w k .onRead s
    | handleWrite =>
      rw [handle, handleWrite]
      cases w.kind k with
      | acceptor => exact Visits.refl k s
      | tcp =>
        have hnone : (changeKey k (fun sk => maskInterest sk OP_WRITE) s).2 = none :=
          changeKey_none (maskInterest_valid hvalid OP_WRITE)
        dsimp only
        rw [Stmt.andThen_of_none hnone]
        exact changed_callback w k .onWrite _ s

theorem handle_none (hvalid : (s.handlers k).sk.valid = true) :
    (handle w k (dispatch (w.ready k)) s).2 = none ↔ ∀ cb ∈ called w k, Contained w k cb := by
  have hskip : (skip s).2 = none := rfl
  rw [called]
  cases dispatch (w.ready k) with
  | none => simp [handle, hskip]
  | some method =>
    cases method with
    | handleAccept =>
      rw [handle, handleAccept]
      cases w.kind k with
      | acceptor =>
        cases w.accepts k with
        | true => simp [Stmt.attempt, Contained]
        | false => simp [hskip]
      | tcp => simp [hskip]
    | handleConnected =>
      rw [handle, handleConnected]
      cases w.kind k with
      | acceptor => simp [hskip]
      | tcp =>
        cases w.finishConnect k with
        | done => simp [connected_none hvalid]
        | notYet => simp [hskip]
        | failed =>
          have hnone : (changeKey k (fun sk => .ok sk.cancel) s).2 = none := changeKey_none rfl
          simp [Stmt.andThen_none, hnone, callback_none, contained_iff]
    | handleRead =>
      rw [handle, handleRead]
      cases w.kind k with
      | acceptor => simp [hskip]
      | tcp => simp [callback_none, contained_iff]
    | handleWrite =>
      rw [handle, handleWrite]
      cases w.kind k with
      | acceptor => simp [hskip]
      | tcp =>
        have hnone : (changeKey k (fun sk => maskInterest sk OP_WRITE) s).2 = none :=
          changeKey_none (maskInterest_valid hvalid OP_WRITE)
        simp [Stmt.andThen_none, hnone, callback_none, contained_iff]

theorem visit_valid (hvalid : (s.handlers k).sk.valid = true) :
    visit w k s = handle w k (dispatch (w.ready k)) s := by
  rw [visit, question, if_pos hvalid]

theorem visit_cancelled (hvalid : (s.handlers k).sk.valid = false) : (visit w k s).2 ≠ none := by
  rw [visit, question, hvalid]
  exact Option.some_ne_none _

/-! ## The loop -/

/-- A turn of the loop that nothing escapes from. -/
def turn (w : Setting ι) (k : ι) (s : Poller ι) : Poller ι :=
  (remove k (visit w k (next k s).1).1).1

theorem pollKeys_cons_none {keys : List ι} : (pollKeys w (k :: keys) s).2 = none ↔
    (visit w k (next k s).1).2 = none ∧ (pollKeys w keys (turn w k s)).2 = none := by
  have hnext : (next k s).2 = none := rfl
  have hremove : ∀ t : Poller ι, (remove k t).2 = none := fun _ => rfl
  rw [pollKeys, Stmt.andThen_of_none hnext, Stmt.andThen_none, Stmt.andThen_of_none (hremove _)]
  rfl

theorem pollKeys_cons {keys : List ι} (h : (visit w k (next k s).1).2 = none) :
    pollKeys w (k :: keys) s = pollKeys w keys (turn w k s) := by
  have hnext : (next k s).2 = none := rfl
  have hremove : ∀ t : Poller ι, (remove k t).2 = none := fun _ => rfl
  rw [pollKeys, Stmt.andThen_of_none hnext, Stmt.andThen_of_none h,
    Stmt.andThen_of_none (hremove _)]
  rfl

theorem turn_visits (w : Setting ι) (hvalid : (s.handlers k).sk.valid = true) :
    Visits k (closedBy w k) (next k s).1 (visit w k (next k s).1).1 := by
  have hnext : ((next k s).1.handlers k).sk.valid = true := hvalid
  rw [visit_valid hnext]
  exact handle_visits w hnext

/-- A key that is cancelled before the iterator comes to it ends the pass. -/
theorem pollKeys_cancelled {keys : List ι} (h : ∃ j ∈ keys, (s.handlers j).sk.valid = false) :
    (pollKeys w keys s).2 ≠ none := by
  induction keys generalizing s with
  | nil =>
    obtain ⟨j, hj, -⟩ := h
    exact absurd hj List.not_mem_nil
  | cons k keys ih =>
    obtain ⟨j, hj, hcancelled⟩ := h
    intro hnone
    obtain ⟨hvisit, hrest⟩ := pollKeys_cons_none.mp hnone
    cases hvalid : (s.handlers k).sk.valid with
    | false => exact visit_cancelled (s := (next k s).1) hvalid hvisit
    | true =>
      have hne : j ≠ k := by
        rintro rfl
        rw [hcancelled] at hvalid
        cases hvalid
      have hmem : j ∈ keys := (List.mem_cons.mp hj).resolve_left hne
      refine ih ⟨j, hmem, ?_⟩ hrest
      have hvisits := turn_visits w hvalid
      by_cases hclosed : j ∈ closedBy w k
      · exact hvisits.cancelled j hclosed hne
      · exact (congrArg (fun h => h.sk.valid) (hvisits.others j hclosed hne)).trans hcancelled

/-- Nothing escapes exactly when no close does harm. -/
theorem pollKeys_none_iff {keys : List ι} (hnodup : keys.Nodup)
    (hvalid : ∀ k ∈ keys, (s.handlers k).sk.valid = true) :
    (pollKeys w keys s).2 = none ↔ Harmless w keys := by
  induction keys generalizing s with
  | nil => exact ⟨fun _ => trivial, fun _ => rfl⟩
  | cons k keys ih =>
    obtain ⟨hnotin, hrest⟩ := List.nodup_cons.mp hnodup
    obtain ⟨hk, hkeys⟩ := List.forall_mem_cons.mp hvalid
    have hne : ∀ j ∈ keys, j ≠ k := fun j hj h => hnotin (h ▸ hj)
    have hvisits := turn_visits w hk
    have hvisit : (visit w k (next k s).1).2 = none ↔ ∀ cb ∈ called w k, Contained w k cb := by
      have hnext : ((next k s).1.handlers k).sk.valid = true := hk
      rw [visit_valid hnext]
      exact handle_none hnext
    rw [pollKeys_cons_none, hvisit, Harmless]
    refine and_congr_right fun _ => ?_
    by_cases hdisjoint : ∀ c ∈ closedBy w k, c ∉ keys
    · have hvalid' : ∀ j ∈ keys, ((turn w k s).handlers j).sk.valid = true := by
        intro j hj
        have hsame := hvisits.others j (fun hclosed => hdisjoint j hclosed hj) (hne j hj)
        exact (congrArg (fun h => h.sk.valid) hsame).trans (hkeys j hj)
      rw [ih hrest hvalid']
      exact ⟨fun h => ⟨hdisjoint, h⟩, fun h => h.2⟩
    · refine ⟨fun h => absurd h ?_, fun h => absurd h.1 hdisjoint⟩
      push Not at hdisjoint
      obtain ⟨c, hc, hmem⟩ := hdisjoint
      exact pollKeys_cancelled ⟨c, hmem, hvisits.cancelled c hc (hne c hmem)⟩

/-- What a pass does that nothing escapes from. -/
theorem pollKeys_clean {keys : List ι} (hnodup : keys.Nodup)
    (hclosed : ∀ k ∈ keys, (s.handlers k).sk.valid = true → (s.handlers k).closed = false)
    (hkeys : s.selectedKeys = keys) (hnone : (pollKeys w keys s).2 = none) :
    (pollKeys w keys s).1.visited = s.visited ++ keys ∧ (pollKeys w keys s).1.selectedKeys = [] ∧
      ∀ c ∈ (pollKeys w keys s).1.calls, c ∈ s.calls ∨ c.opened = true := by
  induction keys generalizing s with
  | nil => exact ⟨(List.append_nil _).symm, hkeys, fun _ hc => .inl hc⟩
  | cons k keys ih =>
    obtain ⟨hnotin, hrest⟩ := List.nodup_cons.mp hnodup
    obtain ⟨hk, hothers⟩ := List.forall_mem_cons.mp hclosed
    obtain ⟨hvisit, hnone'⟩ := pollKeys_cons_none.mp hnone
    have hvalid : (s.handlers k).sk.valid = true := by
      by_contra hinvalid
      exact visit_cancelled (s := (next k s).1) (Bool.eq_false_iff.mpr hinvalid) hvisit
    have hvisits := turn_visits w hvalid
    have hselected : (turn w k s).selectedKeys = keys := by
      show (visit w k (next k s).1).1.selectedKeys.erase k = keys
      rw [hvisits.selectedKeys]
      show s.selectedKeys.erase k = keys
      rw [hkeys, List.erase_cons_head]
    have hclosed' : ∀ j ∈ keys, ((turn w k s).handlers j).sk.valid = true →
        ((turn w k s).handlers j).closed = false := by
      intro j hj hv
      have hne : j ≠ k := fun h => hnotin (h ▸ hj)
      by_cases hc : j ∈ closedBy w k
      · have hcancelled : ((turn w k s).handlers j).sk.valid = false := hvisits.cancelled j hc hne
        rw [hcancelled] at hv
        cases hv
      · have hsame : (turn w k s).handlers j = s.handlers j := hvisits.others j hc hne
        rw [hsame] at hv ⊢
        exact hothers j hj hv
    obtain ⟨hvisited, hempty, hcalls⟩ := ih hrest hclosed' hselected hnone'
    rw [pollKeys_cons hvisit]
    refine ⟨?_, hempty, fun c hc => ?_⟩
    · have hturn : (turn w k s).visited = s.visited ++ [k] := hvisits.visited
      rw [hvisited, hturn, List.append_assoc, List.singleton_append]
    · rcases hcalls c hc with hc | hc
      · rcases hvisits.calls c hc with hc | hc
        · exact .inl hc
        · refine .inr (hc.trans ?_)
          show (!(s.handlers k).closed) = true
          rw [hk hvalid]
          rfl
      · exact .inr hc

/-- **A pass is as it should be exactly when no close does harm.** -/
theorem poll_clean_iff (w : Setting ι) (sel : Selected ι) :
    Clean sel (poll w sel) ↔ Harmless w sel.keys := by
  have hvalid : ∀ k ∈ sel.keys, (sel.handlers k).sk.valid = true := fun k hk => (sel.valid k hk).1
  constructor
  · intro h
    exact (pollKeys_none_iff sel.nodup hvalid).mp h.quiet
  · intro h
    have hnone := (pollKeys_none_iff (w := w) (s :=
      { handlers := sel.handlers, selectedKeys := sel.keys, visited := [], calls := [] })
      sel.nodup hvalid).mpr h
    obtain ⟨hvisited, hempty, hcalls⟩ := pollKeys_clean sel.nodup
      (fun k hk _ => (sel.valid k hk).2) rfl hnone
    refine ⟨hvisited, fun c hc => ?_, hempty, hnone⟩
    exact (hcalls c hc).resolve_left List.not_mem_nil

/-! ## A handler closes the next one -/

def sampleHandler : Handler := { sk := { valid := true, ops := OP_READ }, closed := false }

/-- Two handlers with data to read. -/
def sampleSelected : Selected Nat where
  handlers := fun _ => sampleHandler
  keys := [0, 1]
  nodup := by decide
  valid := fun _ _ => ⟨rfl, rfl⟩

def sampleSetting (closes : Nat → Callback → List Nat) : Setting Nat where
  kind := fun _ => .tcp
  ready := fun _ => OP_READ
  accepts := fun _ => true
  finishConnect := fun _ => .done
  closes := closes

/-- Both keys cannot be visited when the first handler closes the second one. -/
theorem closesNext_throws :
    let w := sampleSetting fun i _ => if i = 0 then [1] else []
    (poll w sampleSelected).2 = some .cancelledKey ∧
      (poll w sampleSelected).1.selectedKeys = [1] ∧
      ¬ Clean sampleSelected (poll w sampleSelected) := by
  refine ⟨by decide, by decide, fun h => ?_⟩
  exact absurd h.quiet (by decide)

end Poller

end Nwchecker.Network
