import Nwchecker.Lib.Descriptors
import Nwchecker.Lib.Machine
import Nwchecker.Lib.Words
import Nwchecker.Types

/-!
# The stream server on epoll

`unix_stream_server.c`. The server keeps no connection objects: the 64 bits of `epoll_data` that
come back with an event are all it knows about a connection, the descriptor in the lower half, and
in the upper half a tag that says that a pong waits to be sent. One `struct epoll_event ev` on the
stack serves for all calls of `epoll_ctl`.

An event of the machine is one return of `epoll_wait`, or one pass of the loop over what it
returned.
-/

namespace Nwchecker.UnixIo

open Descriptors Machine Words

def MAX_EPOLL_EVENTS : Nat := 1024

/-- `struct epoll_event`, with `EPOLLIN` and `EPOLLOUT` of its `events`. -/
structure EpollEvent where
  input : Bool
  output : Bool
  data : BitVec 64
  deriving DecidableEq, Repr

/-- `data.u64 & 0xffffffff` as an `int`, which is `data.fd` too. -/
def sfdOf (data : BitVec 64) : Int := (low data).toInt

/-- `data.u64 >> 32` -/
def tagOf (data : BitVec 64) : BitVec 32 := high data

/-- `ev.data.fd = fd` -/
def setFd (data : BitVec 64) (fd : Int) : BitVec 64 := setLow data (BitVec.ofInt 32 fd)

/-- `2L << 32 | sfd` -/
def writeTagged (sfd : Int) : BitVec 64 := (BitVec.ofInt 64 2 <<< 32) ||| BitVec.ofInt 64 sfd

/-- `unix_stream_server`. `epoll` holds what is registered, `pending` what is left of `events`. -/
structure StreamServer where
  fd : Int
  epoll : Table EpollEvent
  ev : EpollEvent
  pending : List EpollEvent
  left : Bool

namespace StreamServer

/-- What the calls of one pass of the loop return. `epollCtl` is for `EPOLL_CTL_ADD`. -/
structure PassAnswers where
  accept : Except Int Int
  add : Bool
  recv : Except Int Nat
  modIn : Bool
  send : Except Int Nat
  modOut : Bool

/-- `close`, which takes the descriptor out of the epoll as well. -/
def close (s : StreamServer) (x : Int) : StreamServer := { s with epoll := s.epoll.closed x }

/-- The rest of `events` is dropped. -/
def dropEvents (s : StreamServer) : StreamServer := { s with pending := [] }

/-- `EPOLL_CTL_MOD` for `x` with `ev`. The descriptor has to be registered. -/
def modify (s : StreamServer) (x : Int) (ev : EpollEvent) (ok : Bool) : StreamServer :=
  { s with
    ev := ev
    epoll := if ok then s.epoll.changed x fun _ => ev else s.epoll }

/-- The listening socket has an event. -/
def acceptNew (s : StreamServer) (a : PassAnswers) : Option StreamServer :=
  match a.accept with
  | .error errno => some (if errno ≠ EINTR then s.dropEvents else s)
  | .ok newfd =>
    let ev := { input := true, output := false, data := setFd s.ev.data newfd }
    if newfd < 2147483648 then
      (s.epoll.opened newfd ev).map fun epoll =>
        if a.add then { s with ev := ev, epoll := epoll } else { s with ev := ev }.dropEvents
    else none

/-- `send` has failed. -/
def sendFailed (s : StreamServer) (sfd errno : Int) (a : PassAnswers) : StreamServer :=
  if errno = EINTR then s
  else if errno = EAGAIN then
    let ok := a.modOut && (s.epoll.file sfd).isSome
    let s := s.modify sfd { input := true, output := true, data := writeTagged sfd } ok
    if ok then s else (s.close sfd).dropEvents
  else (s.close sfd).dropEvents

/-- With `EPOLLOUT`, the server waits for it no more. -/
def unwatch (s : StreamServer) (e : EpollEvent) (a : PassAnswers) : StreamServer :=
  if e.output then
    s.modify (sfdOf e.data)
      { input := true, output := false, data := BitVec.ofInt 64 (sfdOf e.data) } a.modIn
  else s

/-- From `if (!event || events[i].events & EPOLLOUT)` on. -/
def answer (s : StreamServer) (e : EpollEvent) (a : PassAnswers) : StreamServer :=
  if tagOf e.data = 0 ∨ e.output = true then
    match a.send with
    | .ok _ => s.unwatch e a
    | .error errno => (s.unwatch e a).sendFailed (sfdOf e.data) errno a
  else s

/-- A connection has an event. -/
def serve (s : StreamServer) (e : EpollEvent) (a : PassAnswers) : StreamServer :=
  if e.input then
    match a.recv with
    | .ok 0 => (s.close (sfdOf e.data)).dropEvents
    | .ok (_ + 1) => s.answer e a
    -- `errno == EINTR || EAGAIN` holds for every `errno`
    | .error _ => s.answer e a
  else s.answer e a

/-- The body of the `for` loop. -/
def pass (s : StreamServer) (e : EpollEvent) (a : PassAnswers) : Option StreamServer :=
  if sfdOf e.data = s.fd then s.acceptNew a else some (s.serve e a)

/-! ## The machine -/

inductive Event where
  /-- `epoll_wait` returns these descriptors, with whether they can be read and written. -/
  | wait (ready : Except Int (List (Int × Bool × Bool)))
  | pass (answers : PassAnswers)

/-- The kernel hands out a copy of what is registered, masked by what is waited for. -/
def report (s : StreamServer) (r : Int × Bool × Bool) : Option EpollEvent :=
  (s.epoll.file r.1).map fun ev =>
    { input := ev.input && r.2.1, output := ev.output && r.2.2, data := ev.data }

def step (s : StreamServer) : Event → Option StreamServer
  | .wait ready =>
    if s.left = false ∧ s.pending = [] then
      match ready with
      -- `nfds == EINTR` does not hold
      | .error _ => some { s.close s.fd with left := true }
      | .ok ready =>
        if ready.length ≤ MAX_EPOLL_EVENTS ∧ (ready.map Prod.fst).Nodup then
          some { s with pending := ready.filterMap s.report }
        else none
    else none
  | .pass a =>
    match s.pending with
    | [] => none
    | e :: rest => { s with pending := rest }.pass e a

/-- Where the loop begins. `mem` is what the stack has in the place of `ev`. -/
def start (fd : Int) (mem : EpollEvent) : Option StreamServer :=
  let ev := { input := true, output := false, data := setFd mem.data fd }
  if fd < 2147483648 then
    (Table.empty.opened fd ev).map fun epoll =>
      { fd := fd, epoll := epoll, ev := ev, pending := [], left := false }
  else none

/-! ## What is registered -/

variable {s t : StreamServer} {x : Int}

/-- The tag of a connection says whether the server waits for `EPOLLOUT`. -/
def TagsAgree (s : StreamServer) : Prop :=
  ∀ x ev, x ≠ s.fd → s.epoll.file x = some ev → (tagOf ev.data ≠ 0 ↔ ev.output = true)

theorem sfdOf_setFd (data : BitVec 64) (h0 : 0 ≤ x) (h : x < 2147483648) :
    sfdOf (setFd data x) = x := by
  rw [sfdOf, setFd, low_setLow, toInt_ofInt (by omega) h]

@[simp] theorem tagOf_setFd (data : BitVec 64) (x : Int) : tagOf (setFd data x) = tagOf data :=
  high_setLow ..

theorem sfdOf_ofInt (h0 : 0 ≤ x) (h : x < 2147483648) : sfdOf (BitVec.ofInt 64 x) = x := by
  rw [sfdOf, low_ofInt, toInt_ofInt (by omega) h]

theorem tagOf_ofInt (h0 : 0 ≤ x) (h : x < 2147483648) : tagOf (BitVec.ofInt 64 x) = 0 :=
  high_ofInt h0 (by omega)

theorem sfdOf_writeTagged (h0 : 0 ≤ x) (h : x < 2147483648) : sfdOf (writeTagged x) = x := by
  have hlow : low (BitVec.ofInt 64 2 <<< 32) = 0#32 := by decide
  rw [sfdOf, writeTagged, low_or, hlow, BitVec.zero_or]
  exact sfdOf_ofInt h0 h

theorem tagOf_writeTagged (h0 : 0 ≤ x) (h : x < 2147483648) : tagOf (writeTagged x) = 2 := by
  have hhigh : high (BitVec.ofInt 64 2 <<< 32) = 2#32 := by decide
  rw [tagOf, writeTagged, high_or, hhigh, high_ofInt h0 (by omega), BitVec.or_zero]
  rfl

theorem sfdOf_lt (data : BitVec 64) : sfdOf data < 2147483648 := by
  have := (low data).toInt_lt
  rw [sfdOf]
  omega

/-- What is registered for a descriptor names it, and the tags agree. -/
structure Inv (s : StreamServer) : Prop where
  named : ∀ x ev, s.epoll.file x = some ev → sfdOf ev.data = x
  copied : ∀ e ∈ s.pending, 0 ≤ sfdOf e.data
  agree : s.TagsAgree
  listening : s.left = false → s.epoll.file s.fd ≠ none
  done : s.left = true → s.pending = []

/-- All that is registered anew names its descriptor and has the right tag. -/
theorem Inv.of_registered (hi : s.Inv) (hfd : t.fd = s.fd) (hleft : t.left = s.left)
    (hpending : t.pending ⊆ s.pending)
    (hfile : ∀ y e, t.epoll.file y = some e → s.epoll.file y = some e ∨
      (sfdOf e.data = y ∧ (tagOf e.data ≠ 0 ↔ e.output = true)))
    (hlisten : s.epoll.file s.fd ≠ none → t.epoll.file s.fd ≠ none) : t.Inv where
  named := by
    intro y e hy
    rcases hfile y e hy with hy | hy
    · exact hi.named y e hy
    · exact hy.1
  copied := fun e he => hi.copied e (hpending he)
  agree := by
    intro y e hne hy
    rw [hfd] at hne
    rcases hfile y e hy with hy | hy
    · exact hi.agree y e hne hy
    · exact hy.2
  listening := by
    intro hl
    rw [hleft] at hl
    rw [hfd]
    exact hlisten (hi.listening hl)
  done := by
    intro hl
    rw [hleft] at hl
    have hnil := hi.done hl
    rw [hnil] at hpending
    exact List.subset_nil.mp hpending

theorem Inv.dropEvents (hi : s.Inv) : s.dropEvents.Inv :=
  hi.of_registered rfl rfl (List.nil_subset _) (fun _ _ hy => Or.inl hy) id

theorem Inv.close (hi : s.Inv) (hx : x ≠ s.fd) : (s.close x).Inv := by
  refine hi.of_registered rfl rfl (List.Subset.refl _) ?_ ?_
  · intro y e hy
    exact Or.inl (Table.closed_eq_some.mp hy).2
  · intro hlisten
    rwa [StreamServer.close, Table.closed_other _ hx.symm]

/-- A registration is changed to one that is right. -/
theorem Inv.modify (hi : s.Inv) (ev : EpollEvent) (hfd : sfdOf ev.data = x)
    (htag : tagOf ev.data ≠ 0 ↔ ev.output = true) (ok : Bool) : (s.modify x ev ok).Inv := by
  refine hi.of_registered rfl rfl (List.Subset.refl _) ?_ ?_
  · intro y e hy
    unfold StreamServer.modify at hy
    dsimp only at hy
    split at hy
    · rcases Table.changed_eq_some.mp hy with ⟨rfl, hy⟩ | ⟨-, hy⟩
      · obtain ⟨-, -, rfl⟩ := Option.map_eq_some_iff.mp hy
        exact Or.inr ⟨hfd, htag⟩
      · exact Or.inl hy
    · exact Or.inl hy
  · intro hlisten
    unfold StreamServer.modify
    dsimp only
    split
    · by_cases hxs : s.fd = x
      · rw [hxs, Table.changed_file, ne_eq, Option.map_eq_none_iff, ← hxs]
        exact hlisten
      · rwa [Table.changed_other _ _ hxs]
    · exact hlisten

/-! ## One pass -/

theorem Inv.sendFailed (hi : s.Inv) {errno : Int} (a : PassAnswers) (h0 : 0 ≤ x)
    (h : x < 2147483648) (hx : x ≠ s.fd) : (s.sendFailed x errno a).Inv := by
  have hmod := hi.modify { input := true, output := true, data := writeTagged x }
    (sfdOf_writeTagged h0 h) (by simp [tagOf_writeTagged h0 h])
  unfold StreamServer.sendFailed
  split
  · exact hi
  · split
    · dsimp only
      split
      · exact hmod _
      · exact ((hmod _).close hx).dropEvents
    · exact (hi.close hx).dropEvents

theorem Inv.unwatch (hi : s.Inv) {e : EpollEvent} (a : PassAnswers) (h0 : 0 ≤ sfdOf e.data) :
    (s.unwatch e a).Inv := by
  have h := sfdOf_lt e.data
  unfold StreamServer.unwatch
  split
  · exact hi.modify
      { input := true, output := false, data := BitVec.ofInt 64 (sfdOf e.data) }
      (sfdOf_ofInt h0 h) (by simp [tagOf_ofInt h0 h]) a.modIn
  · exact hi

theorem Inv.answer (hi : s.Inv) {e : EpollEvent} (a : PassAnswers) (h0 : 0 ≤ sfdOf e.data)
    (hx : sfdOf e.data ≠ s.fd) : (s.answer e a).Inv := by
  have hfd : (s.unwatch e a).fd = s.fd := by
    unfold StreamServer.unwatch
    split
    · rfl
    · rfl
  have hunwatch := hi.unwatch a h0
  unfold StreamServer.answer
  split
  · split
    · exact hunwatch
    · exact hunwatch.sendFailed a h0 (sfdOf_lt e.data) (by rwa [hfd])
  · exact hi

theorem Inv.serve (hi : s.Inv) {e : EpollEvent} (a : PassAnswers) (h0 : 0 ≤ sfdOf e.data)
    (hx : sfdOf e.data ≠ s.fd) : (s.serve e a).Inv := by
  unfold StreamServer.serve
  split
  · split
    · exact (hi.close hx).dropEvents
    · exact hi.answer a h0 hx
    · exact hi.answer a h0 hx
  · exact hi.answer a h0 hx

/-- The accept that registers a connection. -/
def PassAnswers.accepts (a : PassAnswers) : Bool := a.accept.isOk && a.add

theorem Inv.acceptNew (hi : s.Inv) {a : PassAnswers}
    (hclear : a.accepts = true → tagOf s.ev.data = 0) (h : s.acceptNew a = some t) : t.Inv := by
  unfold StreamServer.acceptNew at h
  split at h
  · cases h
    split
    · exact hi.dropEvents
    · exact hi
  · next newfd haccept =>
    dsimp only at h
    split at h
    · next hlt =>
      obtain ⟨epoll, hopen, rfl⟩ := Option.map_eq_some_iff.mp h
      split
      · next hadd =>
        have h0 := (Table.opened_cases hopen).1
        have htag : tagOf s.ev.data = 0 := by
          refine hclear ?_
          rw [PassAnswers.accepts, haccept, hadd]
          rfl
        refine hi.of_registered rfl rfl (List.Subset.refl _) ?_ ?_
        · intro y e hy
          rcases (Table.opened_eq_some hopen).mp hy with ⟨rfl, rfl⟩ | ⟨-, hy⟩
          · refine Or.inr ⟨sfdOf_setFd _ h0 hlt, ?_⟩
            rw [tagOf_setFd, htag]
            simp
          · exact Or.inl hy
        · intro hlisten
          rwa [Table.opened_other hopen hlisten]
      · -- only `ev` is written
        exact hi.of_registered rfl rfl (List.nil_subset _) (fun _ _ hy => Or.inl hy) id
    · cases h

/-! ## All steps -/

/-- An accepted connection is registered while the upper half of `ev.data` is 0. -/
def TagClear (s : StreamServer) : Event → Prop
  | .wait _ => True
  | .pass a =>
    match s.pending with
    | [] => True
    | e :: _ => sfdOf e.data = s.fd → a.accepts = true → tagOf s.ev.data = 0

instance (s : StreamServer) : ∀ e, Decidable (s.TagClear e)
  | .wait _ => .isTrue trivial
  | .pass a =>
    match h : s.pending with
    | [] => .isTrue (by simp [TagClear, h])
    | e :: _ =>
      decidable_of_iff (sfdOf e.data = s.fd → a.accepts = true → tagOf s.ev.data = 0)
        (by simp [TagClear, h])

theorem Inv.report (hi : s.Inv) {r : Int × Bool × Bool} {e : EpollEvent}
    (h : s.report r = some e) : 0 ≤ sfdOf e.data := by
  obtain ⟨ev, hev, rfl⟩ := Option.map_eq_some_iff.mp h
  rw [show sfdOf ev.data = r.1 from hi.named r.1 ev hev]
  exact s.epoll.nonneg r.1 (by simp [hev])

theorem Inv.step (hi : s.Inv) {e : Event} (hclear : s.TagClear e) (h : s.step e = some t) :
    t.Inv := by
  cases e with
  | wait ready =>
    simp only [StreamServer.step] at h
    split at h
    · next hwait =>
      split at h
      · -- the loop is left
        cases h
        refine
          { named := fun y ev hy => hi.named y ev (Table.closed_eq_some.mp hy).2
            copied := hi.copied
            agree := fun y ev hne hy => hi.agree y ev hne (Table.closed_eq_some.mp hy).2
            listening := fun hleft => by cases hleft
            done := fun _ => hwait.2 }
      · split at h
        · cases h
          refine
            { named := hi.named, copied := ?_, agree := hi.agree, listening := hi.listening,
              done := fun hleft => ?_ }
          · intro e he
            obtain ⟨r, -, hr⟩ := List.mem_filterMap.mp he
            exact hi.report hr
          · rw [hwait.1] at hleft
            cases hleft
        · cases h
    · cases h
  | pass a =>
    simp only [StreamServer.step] at h
    split at h
    · cases h
    · next e rest hpending =>
      have hrest : ({ s with pending := rest } : StreamServer).Inv :=
        hi.of_registered rfl rfl (by rw [hpending]; exact List.subset_cons_self _ _)
          (fun _ _ hy => Or.inl hy) id
      have h0 : 0 ≤ sfdOf e.data := hi.copied e (by rw [hpending]; exact List.mem_cons_self)
      simp only [TagClear, hpending] at hclear
      unfold pass at h
      split at h
      · next hfd => exact hrest.acceptNew (hclear hfd) h
      · next hfd =>
        cases h
        exact hrest.serve a h0 hfd

/-- With anything in the upper half, the new connection has a tag and does not wait. -/
theorem Inv.step_disagrees (hi : s.Inv) {e : Event} (hclear : ¬s.TagClear e)
    (h : s.step e = some t) : ¬t.TagsAgree := by
  cases e with
  | wait ready => exact absurd trivial hclear
  | pass a =>
    simp only [StreamServer.step] at h
    split at h
    · cases h
    · next e rest hpending =>
      simp only [TagClear, hpending, Classical.not_imp] at hclear
      obtain ⟨hfd, haccepts, htag⟩ := hclear
      have hleft : s.left = false := by
        by_contra hne
        have hnil := hi.done (by simpa using hne)
        rw [hpending] at hnil
        cases hnil
      simp only [PassAnswers.accepts, Bool.and_eq_true] at haccepts
      rw [pass, if_pos hfd] at h
      unfold StreamServer.acceptNew at h
      split at h
      · next errno haccept =>
        rw [haccept] at haccepts
        cases haccepts.1
      · next newfd haccept =>
        dsimp only at h
        split at h
        · obtain ⟨epoll, hopen, rfl⟩ := Option.map_eq_some_iff.mp h
          rw [if_pos haccepts.2]
          obtain ⟨-, hnone, hself, -⟩ := Table.opened_cases hopen
          intro hagree
          have hne : newfd ≠ s.fd := by
            rintro rfl
            exact hi.listening hleft hnone
          have hiff := hagree newfd _ hne hself
          rw [tagOf_setFd] at hiff
          exact absurd (hiff.mp htag) (by simp)
        · cases h

theorem start_inv {fd : Int} {mem : EpollEvent} (h : start fd mem = some s) : s.Inv := by
  simp only [start] at h
  split at h
  · next hlt =>
    obtain ⟨epoll, hopen, rfl⟩ := Option.map_eq_some_iff.mp h
    obtain ⟨h0, -, hself, -⟩ := Table.opened_cases hopen
    -- nothing else is registered
    have honly : ∀ y ev, epoll.file y = some ev →
        y = fd ∧ { input := true, output := false, data := setFd mem.data fd } = ev := by
      intro y ev hy
      rcases (Table.opened_eq_some hopen).mp hy with hy | ⟨-, hy⟩
      · exact hy
      · cases hy
    refine
      { named := ?_, copied := fun _ he => absurd he List.not_mem_nil, agree := ?_
        listening := fun _ => by simp [hself], done := fun _ => rfl }
    · intro y ev hy
      obtain ⟨rfl, rfl⟩ := honly y ev hy
      exact sfdOf_setFd _ h0 hlt
    · intro y ev hne hy
      exact absurd (honly y ev hy).1 hne
  · cases h

/--
**The tags agree while connections are accepted with a clear upper half.**

In every state of a run the tag registered for a connection is there exactly if the server waits for
`EPOLLOUT` on it, if and only if the upper half of `ev.data` is 0 whenever an accepted connection is
registered.
-/
theorem tagsAgree_iff (fd : Int) (mem : EpollEvent) (events : List Event) (s s' : StreamServer)
    (hstart : start fd mem = some s) (hrun : replay step s events = some s') :
    (∀ t, Visits step s events t → t.TagsAgree) ↔ Along step s events TagClear :=
  exact_rule (fun _ hi => hi.agree) (fun _ _ _ hi hclear hstep => hi.step hclear hstep)
    (fun _ _ _ hi hclear hstep => hi.step_disagrees hclear hstep) (start_inv hstart) hrun

/-- The listening socket 3, on a stack that was clear. -/
def sampleStart : Option StreamServer := start 3 { input := false, output := false, data := 0 }

/-- `epoll_wait` returns one descriptor. -/
def readable (fd : Int) : Event := .wait (.ok [(fd, true, false)])

/-- A connection is accepted, or has sent a ping and takes no pong. -/
def passes (accept : Except Int Int) : Event :=
  .pass
    { accept := accept, add := true, recv := .ok 4, modIn := true, send := .error EAGAIN
      modOut := true }

theorem oneClient_agrees : ∃ s s' : StreamServer, sampleStart = some s ∧
    replay step s [readable 3, passes (.ok 4), readable 4, passes (.ok 4)] = some s' ∧
    ∀ t, Visits step s [readable 3, passes (.ok 4), readable 4, passes (.ok 4)] t →
      t.TagsAgree := by
  obtain ⟨s, hs, hrun, hclear⟩ : ∃ s ∈ sampleStart,
      (replay step s [readable 3, passes (.ok 4), readable 4, passes (.ok 4)]).isSome ∧
        Along step s [readable 3, passes (.ok 4), readable 4, passes (.ok 4)] TagClear := by
    decide +kernel
  obtain ⟨s', hs'⟩ := Option.isSome_iff_exists.mp hrun
  exact ⟨s, s', hs, hs', (tagsAgree_iff 3 _ _ s s' hs hs').mpr hclear⟩

/-- The first client takes no pong, and the second one is accepted with its tag. -/
theorem secondClient_disagrees : ∃ s s' : StreamServer, sampleStart = some s ∧
    replay step s
      [readable 3, passes (.ok 4), readable 4, passes (.ok 4), readable 3, passes (.ok 5)]
        = some s' ∧ ¬s'.TagsAgree := by
  obtain ⟨s, hs, s', hs', hfd, hreg⟩ : ∃ s ∈ sampleStart, ∃ s' ∈ replay step s
      [readable 3, passes (.ok 4), readable 4, passes (.ok 4), readable 3, passes (.ok 5)],
        s'.fd = 3 ∧
          (s'.epoll.file 5).map (fun ev => (tagOf ev.data, ev.output)) = some (2, false) := by
    decide +kernel
  refine ⟨s, s', hs, hs', fun hagree => ?_⟩
  obtain ⟨ev, hev, htag⟩ := Option.map_eq_some_iff.mp hreg
  rw [Prod.mk.injEq] at htag
  obtain ⟨htag, hout⟩ := htag
  have hiff := hagree 5 ev (by rw [hfd]; decide) hev
  rw [htag, hout] at hiff
  exact absurd (hiff.mp (by decide)) (by decide)

end StreamServer

end Nwchecker.UnixIo
