import Nwchecker.Epoll.Entry
import Nwchecker.Lib.Machine

/-!
# Masks and interest sets

The entries of `nwc_epoll_looper.c` on one side, and on the other the interest set that the kernel
keeps for each descriptor. `epoll_ctl` refuses what cannot be done, and anything else too when it
likes to; then it changes nothing.

Every function changes the mask first and calls `epoll_ctl` with it. `mirrors_iff` says when the
masks are right all the same, and right after an error: when every call for which `epoll_ctl` cannot
do its part spares the mask.
-/

namespace Nwchecker

open Machine

def ENOENT : Int := 2
def EEXIST : Int := 17

/-! ## `epoll_ctl` -/

/-- The bits `EPOLLIN` and `EPOLLOUT` of `ev.events`. -/
structure EpollEvents where
  epollin : Bool
  epollout : Bool
  deriving DecidableEq, Repr

/-- `EPOLL_CTL_ADD`, `EPOLL_CTL_MOD` and `EPOLL_CTL_DEL`. -/
inductive EpollCtlOp where
  | add
  | mod
  | del
  deriving DecidableEq, Repr

/-- What the kernel waits for, for each descriptor that is registered. -/
abbrev Interest := Int → Option EpollEvents

/--
`epoll_ctl`: the result, or the `errno` of a failure, and the interest sets. `fault` is an error
that nothing else explains, or 0.
-/
def epollCtl (k : Interest) (op : EpollCtlOp) (fd : Int) (events : EpollEvents) (fault : Int) :
    Int × Interest :=
  if fd < 0 then (EBADF, k)
  else if fault ≠ 0 then (fault, k)
  else
    match op, k fd with
    | .add, none => (0, Function.update k fd (some events))
    | .add, some _ => (EEXIST, k)
    | .mod, some _ => (0, Function.update k fd (some events))
    | .del, some _ => (0, Function.update k fd none)
    | _, none => (ENOENT, k)

/-- `events` of `__nwc_epoll_ctl` -/
def EventMask.epollEvents (m : EventMask) : EpollEvents where
  epollin := m.read
  epollout := m.write

/-- `__nwc_epoll_ctl` for an entry with this mask and descriptor. -/
def nwcEpollCtl (k : Interest) (mask : EventMask) (fd : Int) (op : EpollCtlOp) (fault : Int) :
    Int × Interest := epollCtl k op fd mask.epollEvents fault

/-- What is registered for the descriptor afterwards. -/
def EpollCtlOp.leaves (op : EpollCtlOp) (events : EpollEvents) : Option EpollEvents :=
  match op with
  | .add => some events
  | .mod => some events
  | .del => none

/--
`epoll_ctl` can do what it is asked for: nothing is wrong, only a descriptor that is not registered
is added, and only one that is registered is changed or deleted.
-/
def CtlWorks (k : Interest) (fd : Int) (op : EpollCtlOp) (fault : Int) : Prop :=
  0 ≤ fd ∧ fault = 0 ∧ (k fd = none ↔ op = .add)

instance (k : Interest) (fd : Int) (op : EpollCtlOp) (fault : Int) :
    Decidable (CtlWorks k fd op fault) :=
  inferInstanceAs (Decidable (_ ∧ _ ∧ _))

/-- A call fails and changes nothing, or it does what it is for. -/
theorem nwcEpollCtl_cases (k : Interest) (mask : EventMask) (fd : Int) (op : EpollCtlOp)
    (fault : Int) :
    (¬CtlWorks k fd op fault ∧ (nwcEpollCtl k mask fd op fault).1 ≠ 0 ∧
        (nwcEpollCtl k mask fd op fault).2 = k) ∨
      (CtlWorks k fd op fault ∧ nwcEpollCtl k mask fd op fault
        = (0, Function.update k fd (op.leaves mask.epollEvents))) := by
  unfold nwcEpollCtl epollCtl CtlWorks
  by_cases hfd : fd < 0
  · rw [if_pos hfd]
    exact Or.inl ⟨by omega, by simp [EBADF], rfl⟩
  · rw [if_neg hfd]
    by_cases hfault : fault ≠ 0
    · rw [if_pos hfault]
      exact Or.inl ⟨by simp [hfault], hfault, rfl⟩
    · rw [if_neg hfault]
      have hnonneg : 0 ≤ fd := by omega
      have hzero : fault = 0 := not_not.mp hfault
      cases hk : k fd with
      | none =>
        cases op with
        | add => exact Or.inr ⟨⟨hnonneg, hzero, by simp⟩, rfl⟩
        | mod => exact Or.inl ⟨by simp, by simp [ENOENT], rfl⟩
        | del => exact Or.inl ⟨by simp, by simp [ENOENT], rfl⟩
      | some ev =>
        cases op with
        | add => exact Or.inl ⟨by simp, by simp [EEXIST], rfl⟩
        | mod => exact Or.inr ⟨⟨hnonneg, hzero, by simp⟩, rfl⟩
        | del => exact Or.inr ⟨⟨hnonneg, hzero, by simp⟩, rfl⟩

/-- A call returns an error exactly when it cannot be done. -/
theorem nwcEpollCtl_fails (k : Interest) (mask : EventMask) (fd : Int) (op : EpollCtlOp)
    (fault : Int) : (nwcEpollCtl k mask fd op fault).1 ≠ 0 ↔ ¬CtlWorks k fd op fault := by
  rcases nwcEpollCtl_cases k mask fd op fault with ⟨hfails, hrc, -⟩ | ⟨hworks, heq⟩
  · exact iff_of_true hrc hfails
  · rw [heq]
    exact iff_of_false (fun h => h rfl) (not_not.mpr hworks)

/--
`nwc_epoll_add_handler`: the entry, if there is one, and the interest sets. `alloc` says whether
`malloc` returned memory.
-/
def nwcEpollAdd (k : Interest) (fd : Int) (eh : Nat) (alloc : Bool) (fault : Int) :
    Option EpollEntry × Interest :=
  if alloc then
    let r := nwcEpollCtl k emNone fd .add fault
    (nwcEpollAddHandler fd eh r.1, r.2)
  else (none, k)

/-- An entry that waits for nothing is registered, or nothing happens. -/
theorem nwcEpollAdd_cases (k : Interest) (fd : Int) (eh : Nat) (alloc : Bool) (fault : Int) :
    (¬(alloc = true ∧ CtlWorks k fd .add fault) ∧ nwcEpollAdd k fd eh alloc fault = (none, k)) ∨
      ((alloc = true ∧ CtlWorks k fd .add fault) ∧ nwcEpollAdd k fd eh alloc fault
        = (some { mask := emNone, fd := fd, eh := eh },
            Function.update k fd (some emNone.epollEvents))) := by
  unfold nwcEpollAdd
  cases alloc with
  | false => exact Or.inl ⟨by simp, rfl⟩
  | true =>
    rw [if_pos rfl]
    dsimp only
    rcases nwcEpollCtl_cases k emNone fd .add fault with ⟨hfails, hrc, hk⟩ | ⟨hworks, heq⟩
    · rw [nwcEpollAddHandler, if_neg hrc, hk]
      exact Or.inl ⟨fun h => hfails h.2, rfl⟩
    · rw [heq, nwcEpollAddHandler, if_pos rfl]
      exact Or.inr ⟨⟨rfl, hworks⟩, rfl⟩

/-! ## The looper -/

/-- The entries by their handles, and the interest sets. -/
structure EpollTable where
  interest : Interest
  entries : List EpollEntry

namespace EpollTable

/-- `nwc_epoll_add_handler` -/
def addHandler (t : EpollTable) (fd : Int) (eh : Nat) (alloc : Bool) (fault : Int) :
    Option Nat × EpollTable :=
  match nwcEpollAdd t.interest fd eh alloc fault with
  | (none, k) => (none, { t with interest := k })
  | (some e, k) => (some t.entries.length, { interest := k, entries := t.entries ++ [e] })

/--
The part that the other functions share: change the entry and call `epoll_ctl` with the new mask
and the descriptor. `none` when there is no such entry.
-/
def change (t : EpollTable) (handle : Nat) (f : EpollEntry → EpollEntry) (op : EpollCtlOp)
    (fault : Int) : Option (Int × EpollTable) :=
  match t.entries[handle]? with
  | none => none
  | some e =>
    let r := nwcEpollCtl t.interest (f e).mask e.fd op fault
    some (r.1, { interest := r.2, entries := t.entries.set handle (f e) })

/-- `nwc_epoll_register_event` -/
def registerEvent (t : EpollTable) (handle : Nat) (events : EventMask) (fault : Int) :
    Option (Int × EpollTable) :=
  t.change handle (nwcEpollRegisterEvent · events) .mod fault

/-- `nwc_epoll_cancel_event` -/
def cancelEvent (t : EpollTable) (handle : Nat) (events : EventMask) (fault : Int) :
    Option (Int × EpollTable) :=
  t.change handle (nwcEpollCancelEvent · events) .mod fault

/-- `nwc_epoll_remove_handler`. The descriptor goes after `epoll_ctl` was called with it. -/
def removeHandler (t : EpollTable) (handle : Nat) (fault : Int) : Option (Int × EpollTable) :=
  t.change handle nwcEpollRemoveHandler .del fault

/-- An entry is added, or nothing happens. -/
theorem addHandler_cases (t : EpollTable) (fd : Int) (eh : Nat) (alloc : Bool) (fault : Int) :
    t.addHandler fd eh alloc fault = (none, t) ∨
      (t.addHandler fd eh alloc fault
          = (some t.entries.length,
              { interest := Function.update t.interest fd (some emNone.epollEvents)
                entries := t.entries ++ [{ mask := emNone, fd := fd, eh := eh }] }) ∧
        t.interest fd = none) := by
  unfold addHandler
  rcases nwcEpollAdd_cases t.interest fd eh alloc fault with ⟨-, heq⟩ | ⟨hworks, heq⟩
  · rw [heq]
    exact Or.inl rfl
  · rw [heq]
    exact Or.inr ⟨rfl, hworks.2.2.2.mpr rfl⟩

/-- The mask of every live entry is what the kernel waits for. -/
def Mirrors (t : EpollTable) : Prop :=
  ∀ e ∈ t.entries, e.armed → t.interest e.fd = some e.mask.epollEvents

end EpollTable

/-! ## Runs -/

/-- The calls with a handle. -/
inductive HandleCall where
  | register (events : EventMask)
  | cancel (events : EventMask)
  | remove
  deriving DecidableEq, Repr

namespace HandleCall

/-- What a call makes of its entry. -/
def entry : HandleCall → EpollEntry → EpollEntry
  | .register events, e => nwcEpollRegisterEvent e events
  | .cancel events, e => nwcEpollCancelEvent e events
  | .remove, e => nwcEpollRemoveHandler e

def op : HandleCall → EpollCtlOp
  | .register _ => .mod
  | .cancel _ => .mod
  | .remove => .del

def run (t : EpollTable) (handle : Nat) (fault : Int) : HandleCall → Option (Int × EpollTable)
  | .register events => t.registerEvent handle events fault
  | .cancel events => t.cancelEvent handle events fault
  | .remove => t.removeHandler handle fault

theorem run_eq (t : EpollTable) (handle : Nat) (fault : Int) (c : HandleCall) :
    c.run t handle fault = t.change handle c.entry c.op fault := by
  cases c with
  | register events => rfl
  | cancel events => rfl
  | remove => rfl

/--
The calls that a mask does not change under: to register events that it has, to cancel events
that it does not have, and to remove an entry that waits for nothing.
-/
def Spares (m : EventMask) : HandleCall → Prop
  | .register events => (events.read → m.read) ∧ (events.write → m.write)
  | .cancel events => (m.read → !events.read) ∧ (m.write → !events.write)
  | .remove => m = emNone

instance (m : EventMask) (c : HandleCall) : Decidable (c.Spares m) :=
  match c with
  | .register _ => inferInstanceAs (Decidable (_ ∧ _))
  | .cancel _ => inferInstanceAs (Decidable (_ ∧ _))
  | .remove => inferInstanceAs (Decidable (m = emNone))

theorem entry_mask_iff (c : HandleCall) (e : EpollEntry) :
    (c.entry e).mask = e.mask ↔ c.Spares e.mask := by
  obtain ⟨⟨read, write⟩, fd, eh⟩ := e
  cases c with
  | register events =>
    simp [entry, nwcEpollRegisterEvent, EventMask.add, Spares]
  | cancel events =>
    simp [entry, nwcEpollCancelEvent, EventMask.cancel, Spares]
  | remove =>
    simp [entry, nwcEpollRemoveHandler, Spares, eq_comm]

/-- A live entry stays live, or the call is `nwc_epoll_remove_handler`. -/
theorem entry_armed (c : HandleCall) (e : EpollEntry) :
    ((c.entry e).armed = false) ∨ ((c.entry e).fd = e.fd ∧ c.op = .mod) := by
  cases c with
  | register events => exact Or.inr ⟨rfl, rfl⟩
  | cancel events => exact Or.inr ⟨rfl, rfl⟩
  | remove => exact Or.inl (nwcEpollRemoveHandler_armed e)

end HandleCall

/-- `kept` says whether every call that returned an error has left the mask as it was. -/
structure EpollRun where
  table : EpollTable
  kept : Bool

namespace EpollRun

inductive Event where
  | add (fd : Int) (eh : Nat) (alloc : Bool) (fault : Int)
  | call (handle : Nat) (c : HandleCall) (fault : Int)

def step (r : EpollRun) : Event → Option EpollRun
  | .add fd eh alloc fault => some { r with table := (r.table.addHandler fd eh alloc fault).2 }
  | .call handle c fault =>
    match c.run r.table handle fault with
    | none => none
    | some (rc, t) =>
      some
        { table := t
          kept := r.kept && (rc == 0 || (t.entries[handle]?.map (·.mask)
            == r.table.entries[handle]?.map (·.mask))) }

/-- A looper that `nwc_epoll_start` has just set up. -/
def start : EpollRun where
  table := { interest := fun _ => none, entries := [] }
  kept := true

/-- The masks are right, and no error has changed one. -/
structure Faithful (r : EpollRun) : Prop where
  mirrors : r.table.Mirrors
  kept : r.kept = true

/-- When `epoll_ctl` cannot do what it is asked for, the mask has nothing to change. -/
def Harmless (r : EpollRun) : Event → Prop
  | .add .. => True
  | .call handle c fault => ∀ e ∈ r.table.entries[handle]?,
      ¬CtlWorks r.table.interest e.fd c.op fault → c.Spares e.mask

instance (r : EpollRun) (ev : Event) : Decidable (Harmless r ev) :=
  match ev with
  | .add .. => isTrue trivial
  | .call handle _ _ => inferInstanceAs (Decidable (∀ e ∈ r.table.entries[handle]?, _))

/-- Besides, no descriptor has two live entries. -/
structure Settled (r : EpollRun) : Prop extends Faithful r where
  distinct : ∀ (i j : Nat) (e e' : EpollEntry), r.table.entries[i]? = some e →
    r.table.entries[j]? = some e' → e.armed → e'.armed → e.fd = e'.fd → i = j

theorem start_settled : start.Settled where
  mirrors := fun e he => absurd he List.not_mem_nil
  kept := rfl
  distinct := fun i j e e' he => absurd he (by simp [start])

variable {r r' : EpollRun}

/-- An entry of the longer list is an old one, or the new one at the end. -/
theorem mem_concat {es : List EpollEntry} {new e : EpollEntry} {i : Nat}
    (h : (es ++ [new])[i]? = some e) : es[i]? = some e ∨ (i = es.length ∧ e = new) := by
  rw [List.getElem?_append] at h
  split at h
  · exact Or.inl h
  · next hlen =>
    obtain ⟨hlt, heq⟩ := List.getElem?_eq_some_iff.mp h
    rw [List.length_singleton] at hlt
    refine Or.inr ⟨by omega, ?_⟩
    rw [← heq, List.getElem_singleton]

/-- A new entry is the only live one for its descriptor. -/
theorem Settled.add (h : r.Settled) {fd : Int} {eh : Nat} {alloc : Bool} {fault : Int}
    (hstep : r.step (.add fd eh alloc fault) = some r') : r'.Settled := by
  cases hstep
  rcases r.table.addHandler_cases fd eh alloc fault with heq | ⟨heq, hfree⟩
  · rw [heq]
    exact h
  · rw [heq]
    have hlive : ∀ e ∈ r.table.entries, e.armed → e.fd ≠ fd := by
      rintro e he harmed rfl
      rw [h.mirrors e he harmed] at hfree
      cases hfree
    refine ⟨⟨?_, h.kept⟩, ?_⟩
    · intro e he harmed
      rcases List.mem_append.mp he with he | he
      · exact (Function.update_of_ne (hlive e he harmed) _ _).trans (h.mirrors e he harmed)
      · rw [List.mem_singleton.mp he]
        exact Function.update_self ..
    · intro i j e e' hi hj harmed harmed' hfd
      rcases mem_concat hi with hi | ⟨hilast, rfl⟩
      · rcases mem_concat hj with hj | ⟨-, rfl⟩
        · exact h.distinct i j e e' hi hj harmed harmed' hfd
        · exact absurd hfd (hlive e (List.mem_of_getElem? hi) harmed)
      · rcases mem_concat hj with hj | ⟨hjlast, -⟩
        · exact absurd hfd.symm (hlive e' (List.mem_of_getElem? hj) harmed')
        · exact hilast.trans hjlast.symm

/-- A call on a handle in terms of the entry behind it. -/
theorem step_call {handle : Nat} {c : HandleCall} {fault : Int}
    (hstep : r.step (.call handle c fault) = some r') :
    ∃ e, r.table.entries[handle]? = some e ∧
      r'.table =
        { interest :=
            (nwcEpollCtl r.table.interest (c.entry e).mask e.fd c.op fault).2
          entries := r.table.entries.set handle (c.entry e) } ∧
      (r'.kept = true ↔ r.kept = true ∧
        (¬CtlWorks r.table.interest e.fd c.op fault → c.Spares e.mask)) := by
  simp only [step, HandleCall.run_eq, EpollTable.change] at hstep
  cases he : r.table.entries[handle]? with
  | none =>
    rw [he] at hstep
    cases hstep
  | some e =>
    rw [he] at hstep
    cases hstep
    obtain ⟨hlt, -⟩ := List.getElem?_eq_some_iff.mp he
    refine ⟨e, rfl, rfl, ?_⟩
    rw [← nwcEpollCtl_fails r.table.interest (c.entry e).mask, ← c.entry_mask_iff]
    simp only [List.getElem?_set_self hlt, Option.map_some, Bool.and_eq_true, Bool.or_eq_true,
      beq_iff_eq, Option.some.injEq, or_iff_not_imp_left]

/-- A live entry after a call was live before it, with the same descriptor. -/
theorem live_before {handle i : Nat} {c : HandleCall} {e x : EpollEntry}
    (he : r.table.entries[handle]? = some e)
    (hx : (r.table.entries.set handle (c.entry e))[i]? = some x) (harmed : x.armed) :
    ∃ y, r.table.entries[i]? = some y ∧ y.armed ∧ y.fd = x.fd ∧
      ((i = handle ∧ y = e ∧ x = c.entry e ∧ c.op = .mod) ∨ (i ≠ handle ∧ y = x)) := by
  rw [List.getElem?_set] at hx
  split at hx
  · next hi =>
    subst hi
    split at hx
    · cases hx
      rcases c.entry_armed e with hdead | ⟨hfd, hop⟩
      · rw [hdead] at harmed
        cases harmed
      · refine ⟨e, he, ?_, hfd.symm, Or.inl ⟨rfl, rfl, rfl, hop⟩⟩
        rw [EpollEntry.armed, hfd] at harmed
        exact harmed
    · cases hx
  · next hi => exact ⟨x, hx, harmed, rfl, Or.inr ⟨fun h => hi h.symm, rfl⟩⟩

theorem Settled.call (h : r.Settled) {handle : Nat} {c : HandleCall} {fault : Int}
    (hgood : Harmless r (.call handle c fault))
    (hstep : r.step (.call handle c fault) = some r') : r'.Settled := by
  obtain ⟨e, he, htable, hkept⟩ := step_call hstep
  have hharmless : ¬CtlWorks r.table.interest e.fd c.op fault → c.Spares e.mask := hgood e he
  have hmem : e ∈ r.table.entries := List.mem_of_getElem? he
  refine ⟨⟨?_, hkept.mpr ⟨h.kept, hharmless⟩⟩, ?_⟩
  · intro x hx harmed
    rw [htable] at hx ⊢
    obtain ⟨i, hi⟩ := List.mem_iff_getElem?.mp hx
    obtain ⟨y, hy, hyarmed, hyfd, hcase⟩ := live_before he hi harmed
    have hold : r.table.interest x.fd = some y.mask.epollEvents := by
      rw [← hyfd]
      exact h.mirrors y (List.mem_of_getElem? hy) hyarmed
    show (nwcEpollCtl r.table.interest (c.entry e).mask e.fd c.op fault).2 x.fd = _
    rcases nwcEpollCtl_cases r.table.interest (c.entry e).mask e.fd c.op fault with
      ⟨hfails, -, hk⟩ | ⟨⟨hnonneg, -⟩, heq⟩
    · rw [hk, hold]
      rcases hcase with ⟨-, rfl, rfl, -⟩ | ⟨-, rfl⟩
      · rw [(c.entry_mask_iff y).mpr (hharmless hfails)]
      · rfl
    · rw [heq]
      dsimp only
      rcases hcase with ⟨-, rfl, rfl, hop⟩ | ⟨hne, rfl⟩
      · rw [hop, ← hyfd, Function.update_self]
        rfl
      · have hearmed : e.armed := by
          simp only [EpollEntry.armed, invalidFd, bne_iff_ne, ne_eq]
          omega
        have hfd : y.fd ≠ e.fd := fun hfd => hne (h.distinct i handle y e hy he harmed hearmed hfd)
        rw [Function.update_of_ne hfd]
        exact hold
  · intro i j x x' hi hj harmed harmed' hfd
    rw [htable] at hi hj
    obtain ⟨y, hy, hyarmed, hyfd, -⟩ := live_before he hi harmed
    obtain ⟨y', hy', hyarmed', hyfd', -⟩ := live_before he hj harmed'
    exact h.distinct i j y y' hy hy' hyarmed hyarmed' (hyfd.trans (hfd.trans hyfd'.symm))

/--
**The masks mirror the interest sets exactly when no mask has a change to lose.**

For every sequence of calls on any number of entries and every outcome of each `epoll_ctl`: the
mask of each live entry is what the kernel waits for, and no error has changed one, all along the
run if and only if, whenever `epoll_ctl` cannot be done, the mask of a `register` has the events
already, that of a `cancel` has none of them, and that of a `remove` is empty.
-/
theorem mirrors_iff {evs : List Event} (hrun : replay step start evs = some r) :
    (∀ t, Visits step start evs t → t.Faithful) ↔ Along step start evs Harmless := by
  refine exact_rule (fun _ h => h.toFaithful) ?_ ?_ start_settled hrun
  · intro s ev t h hgood hstep
    cases ev with
    | add fd eh alloc fault => exact h.add hstep
    | call handle c fault => exact h.call hgood hstep
  · intro s ev t h hbad hstep hfaithful
    cases ev with
    | add fd eh alloc fault => exact hbad trivial
    | call handle c fault =>
      obtain ⟨e, he, -, hkept⟩ := step_call hstep
      refine hbad fun e' he' => ?_
      rw [he] at he'
      cases he'
      exact (hkept.mp hfaithful.kept).2

/-- A handler comes, waits for both, then for one, and goes. -/
def ordinary : List Event :=
  [.add 5 0 true 0, .call 0 (.register EM_ALL) 0, .call 0 (.cancel EM_WRITE) 0, .call 0 .remove 0]

theorem ordinary_faithful : ∃ r, replay step start ordinary = some r ∧ r.Faithful := by
  obtain ⟨r, hr⟩ := Option.isSome_iff_exists.mp
    (show (replay step start ordinary).isSome by decide)
  have hgood : Along step start ordinary Harmless := by decide
  exact ⟨r, hr, (mirrors_iff hr).mpr hgood r ⟨ordinary, List.prefix_rfl, hr⟩⟩

/-- The kernel is out of memory when the events are registered. -/
theorem registerFails_not_faithful :
    ∃ r, replay step start [.add 5 0 true 0, .call 0 (.register EM_READ) 12] = some r ∧
      ¬r.table.Mirrors ∧ r.kept = false := by
  refine ⟨_, rfl, fun h => ?_, rfl⟩
  have hentry := h { mask := EM_READ, fd := 5, eh := 0 } (List.mem_singleton_self _) rfl
  exact absurd hentry (by decide)

end EpollRun

end Nwchecker
