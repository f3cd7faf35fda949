import Nwchecker.UnixIo.MultiProcess

/-!
# Descriptors in `fd_set`s

`FD_SET` and `FD_ISSET` work for descriptors below `FD_SETSIZE` only, and say something for open
ones only. The processes of the select server keep to open descriptors, with one exception: a worker
has no listening socket and tests it all the same (`tests_open`). `setsValid_iff` is the exact
condition under which all that is tested is valid.
-/

namespace Nwchecker.UnixIo

open Descriptors Machine

/-- The call is defined and means something. -/
structure FdUse.Valid (u : FdUse) : Prop where
  nonneg : 0 ≤ u.fd
  small : u.fd < FD_SETSIZE
  opened : u.opened = true

namespace WorkerProcess

/-- The descriptors that the context holds. -/
def held (ctx : WorkerContext) : List Int :=
  (ctx.notifyFd.2 :: ctx.listenFd :: ctx.nwcHdr.map fun c => c.fd).filter (· ≠ -1)

variable {p q : WorkerProcess} {B : Int → Prop} {Q : FdUse → Prop} {fd : Int}

theorem mem_held {ctx : WorkerContext} : fd ∈ held ctx ↔
    fd ≠ -1 ∧ (fd = ctx.notifyFd.2 ∨ fd = ctx.listenFd ∨ ∃ c ∈ ctx.nwcHdr, c.fd = fd) := by
  simp only [held, List.mem_filter, List.mem_cons, List.mem_map, ne_eq, decide_not,
    Bool.not_eq_eq_eq_not, Bool.not_true, decide_eq_false_iff_not]
  exact And.comm

/-! ## The invariant

`B` bounds the descriptors that are held, and `Q` is what holds of every call.
-/

/-- What is held is open, and held once. -/
structure Sound (B : Int → Prop) (p : WorkerProcess) : Prop where
  opened : ∀ fd ∈ held p.ctx, p.files.file fd ≠ none
  nodup : (held p.ctx).Nodup
  bounded : ∀ fd ∈ held p.ctx, B fd
  notify : p.ctx.notifyFd.2 ≠ -1

/-- Between two calls of `select`, no connection is without a descriptor. -/
structure Serving (B : Int → Prop) (p : WorkerProcess) : Prop extends Sound B p where
  live : ∀ c ∈ p.ctx.nwcHdr, c.fd ≠ -1

/-- A process that has left `worker` calls nothing any more. -/
structure Inv (B : Int → Prop) (Q : FdUse → Prop) (p : WorkerProcess) : Prop where
  uses : ∀ u ∈ p.uses, Q u
  serving : p.phase ≠ .left → Serving B p
  watched : ∀ readfds writefds, p.phase = .waiting readfds writefds → p.ctx.notifyFd.2 ∈ readfds

/-- Calls with what is held. -/
theorem Sound.use_held (hs : Sound B p) (hQ : ∀ fd, 0 ≤ fd → B fd → Q ⟨fd, true⟩)
    (huses : ∀ u ∈ p.uses, Q u) {fds : List Int} (hfds : ∀ fd ∈ fds, fd ∈ held p.ctx) :
    ∀ u ∈ (p.use fds).uses, Q u := by
  intro u hu
  rcases List.mem_append.mp hu with hu | hu
  · exact huses u hu
  · obtain ⟨fd, hfd, rfl⟩ := List.mem_map.mp hu
    have hmem := hfds fd hfd
    have hopen := hs.opened fd hmem
    rw [Option.isSome_iff_ne_none.mpr hopen]
    exact hQ fd (p.files.nonneg fd hopen) (hs.bounded fd hmem)

/-- Only the context and the table matter. -/
theorem Sound.of_same (hs : Sound B p) (hctx : q.ctx = p.ctx) (hfiles : q.files = p.files) :
    Sound B q where
  opened := by
    rw [hctx, hfiles]
    exact hs.opened
  nodup := by
    rw [hctx]
    exact hs.nodup
  bounded := by
    rw [hctx]
    exact hs.bounded
  notify := by
    rw [hctx]
    exact hs.notify

/-! ## The top of the loop -/

theorem held_filter (ctx : WorkerContext) :
    held { ctx with nwcHdr := ctx.nwcHdr.filter fun c => c.fd ≠ -1 } = held ctx := by
  have hmap : ((ctx.nwcHdr.filter fun c => c.fd ≠ -1).map fun c => c.fd)
      = (ctx.nwcHdr.map fun c => c.fd).filter (· ≠ -1) := by
    rw [List.filter_map]
    rfl
  simp only [held, List.filter_cons, hmap, List.filter_filter, Bool.and_self]

/-- The sweep sets what is held. -/
theorem topSets_held {ctx : WorkerContext} {hdr : List NwcConnection}
    (hhdr : hdr = ctx.nwcHdr.filter fun c => c.fd ≠ -1) (hfd : fd ∈ ownFds ctx ++ sweepSets hdr) :
    fd ∈ held ctx := by
  rw [mem_held]
  rcases List.mem_append.mp hfd with hfd | hfd
  · simp only [ownFds, List.mem_filter, List.mem_cons, List.not_mem_nil, or_false, ne_eq,
      decide_not, Bool.not_eq_eq_eq_not, Bool.not_true, decide_eq_false_iff_not] at hfd
    obtain ⟨hown, hne⟩ := hfd
    exact ⟨hne, hown.imp_right Or.inl⟩
  · obtain ⟨c, hc, hcfd⟩ := List.mem_flatMap.mp hfd
    rw [hhdr, List.mem_filter] at hc
    have hne : c.fd ≠ -1 := by simpa using hc.2
    have heq : fd = c.fd := by
      rcases List.mem_append.mp hcfd with h | h
      · split at h
        · exact List.mem_singleton.mp h
        · cases h
      · split at h
        · exact List.mem_singleton.mp h
        · cases h
    rw [heq]
    exact ⟨hne, Or.inr (Or.inr ⟨c, hc.1, rfl⟩)⟩

theorem held_top : held p.top.ctx = held p.ctx := held_filter p.ctx

theorem Sound.top (hs : Sound B p) (hQ : ∀ fd, 0 ≤ fd → B fd → Q ⟨fd, true⟩)
    (huses : ∀ u ∈ p.uses, Q u) : Inv B Q p.top where
  uses := hs.use_held hQ huses fun _ hfd => topSets_held rfl hfd
  serving := fun _ =>
    { opened := by
        rw [held_top]
        exact hs.opened
      nodup := by
        rw [held_top]
        exact hs.nodup
      bounded := by
        rw [held_top]
        exact hs.bounded
      notify := hs.notify
      live := by
        intro c hc
        simpa using (List.mem_filter.mp hc).2 }
  watched := by
    intro readfds writefds h
    cases h
    refine List.mem_append_left _ ?_
    show p.ctx.notifyFd.2 ∈ ownFds p.ctx
    simp [ownFds, hs.notify]

/-- Behind the loop nothing is called. -/
theorem leave_inv (huses : ∀ u ∈ p.uses, Q u) : Inv B Q p.leave where
  uses := huses
  serving := fun h => absurd rfl h
  watched := fun _ _ h => by cases h

/-! ## A message -/

/-- A descriptor that the system gives out is not held. -/
theorem Sound.fresh (hs : Sound B p) {files : Table Unit} (h : p.files.opened fd () = some files) :
    fd ∉ held p.ctx := by
  intro hmem
  obtain ⟨-, hnone, -⟩ := Table.opened_cases h
  exact hs.opened fd hmem hnone

/-- More may be open. -/
theorem Sound.of_opened (hs : Sound B p) {files : Table Unit}
    (h : p.files.opened fd () = some files) : Sound B { p with files := files } where
  opened := by
    intro x hx
    have hopen := hs.opened x hx
    rwa [show ({ p with files := files } : WorkerProcess).files = files from rfl,
      Table.opened_other h hopen]
  nodup := hs.nodup
  bounded := hs.bounded
  notify := hs.notify

theorem held_addConnection (mem : NwcConnection) :
    held (p.addConnection mem fd).ctx = held p.ctx ++ [fd].filter (· ≠ -1) := by
  simp only [held, addConnection, allocNwcConn, List.map_append, List.map_cons, List.map_nil]
  rw [← List.filter_append]
  rfl

/-- What comes with a message is new. -/
theorem Sound.addConnection (hs : Sound B p) (mem : NwcConnection)
    (hfd : fd ≠ -1 → p.files.file fd ≠ none ∧ fd ∉ held p.ctx ∧ B fd) :
    Sound B (p.addConnection mem fd) := by
  have hmem : ∀ x ∈ [fd].filter (· ≠ -1), x = fd ∧ fd ≠ -1 := by
    intro x hx
    obtain ⟨hx, hne⟩ := List.mem_filter.mp hx
    rw [List.mem_singleton] at hx
    exact ⟨hx, by simpa [hx] using hne⟩
  constructor
  · intro x hx
    rw [held_addConnection, List.mem_append] at hx
    rcases hx with hx | hx
    · exact hs.opened x hx
    · obtain ⟨rfl, hne⟩ := hmem x hx
      exact (hfd hne).1
  · rw [held_addConnection]
    refine List.nodup_append.mpr ⟨hs.nodup, (List.nodup_singleton fd).filter _, ?_⟩
    rintro x hx y hy rfl
    obtain ⟨rfl, hne⟩ := hmem x hy
    exact (hfd hne).2.1 hx
  · intro x hx
    rw [held_addConnection, List.mem_append] at hx
    rcases hx with hx | hx
    · exact hs.bounded x hx
    · obtain ⟨rfl, hne⟩ := hmem x hx
      exact (hfd hne).2.2
  · exact hs.notify

theorem Sound.notified (hs : Sound B p) (hQ : ∀ fd, 0 ≤ fd → B fd → Q ⟨fd, true⟩)
    (huses : ∀ u ∈ p.uses, Q u) {mem : NwcConnection} {msg : WorkerMsg}
    (hB : msg.cmd = CMD_FD → ∀ fd ∈ msg.fd, B fd) (h : p.notified mem msg = some q) :
    Inv B Q q := by
  obtain ⟨r, hr, rfl⟩ := Option.map_eq_some_iff.mp h
  obtain ⟨hctx, hsame, -⟩ := receiveFd_same hr
  have huses' : ∀ u ∈ r.uses, Q u := by
    rw [hsame]
    exact huses
  have hrs : Sound B r ∧ ∀ fd ∈ msg.fd, r.files.file fd ≠ none ∧ fd ∉ held r.ctx := by
    rw [hctx]
    cases hfd : msg.fd with
    | none =>
      rw [hfd] at hr
      cases hr
      exact ⟨hs, by simp⟩
    | some fd =>
      rw [hfd] at hr
      obtain ⟨files, hfiles, rfl⟩ := Option.map_eq_some_iff.mp hr
      refine ⟨hs.of_opened hfiles, ?_⟩
      intro x hx
      cases hx
      obtain ⟨-, -, hself, -⟩ := Table.opened_cases hfiles
      exact ⟨by simp [hself], hs.fresh hfiles⟩
  split
  · next hcmd =>
    refine (hrs.1.addConnection mem ?_).top hQ huses'
    intro hne
    cases hfd : msg.fd with
    | none =>
      rw [hfd] at hne
      exact absurd rfl hne
    | some fd =>
      obtain ⟨hopen, hnew⟩ := hrs.2 fd (by rw [hfd]; rfl)
      exact ⟨hopen, hnew, hB hcmd fd (by rw [hfd]; rfl)⟩
  · split
    · exact leave_inv huses'
    · exact hrs.1.top hQ huses'

/-! ## An accept -/

theorem Sound.acceptable (hs : Sound B p) (hQ : ∀ fd, 0 ≤ fd → B fd → Q ⟨fd, true⟩)
    (huses : ∀ u ∈ p.uses, Q u) {accept : Except Int Int} (h : p.acceptable accept = some q) :
    Inv B Q q := by
  unfold WorkerProcess.acceptable at h
  split at h
  · cases h
    split
    · exact leave_inv huses
    · exact hs.top hQ huses
  · -- what is accepted is closed again
    obtain ⟨files, hfiles, rfl⟩ := Option.map_eq_some_iff.mp h
    exact Sound.top (hs.of_same rfl (Table.closed_opened hfiles)) hQ huses

theorem Serving.of_same (hs : Serving B p) (hctx : q.ctx = p.ctx) (hfiles : q.files = p.files) :
    Serving B q where
  toSound := hs.toSound.of_same hctx hfiles
  live := by
    rw [hctx]
    exact hs.live

/-- The test of `listen_fd`, whether there is one or not. -/
theorem Serving.notNotified (hs : Serving B p) (hQ : ∀ fd, 0 ≤ fd → B fd → Q ⟨fd, true⟩)
    (huses : ∀ u ∈ p.uses, Q u) (hstray : p.ctx.listenFd = -1 → Q ⟨-1, false⟩)
    {readfds writefds : List Int} {stray : Bool} {accept : Except Int Int}
    (h : p.notNotified readfds writefds stray accept = some q) : Inv B Q q := by
  have huses' : ∀ u ∈ (p.use [p.ctx.listenFd]).uses, Q u := by
    by_cases hlisten : p.ctx.listenFd = -1
    · intro u hu
      rcases List.mem_append.mp hu with hu | hu
      · exact huses u hu
      · rw [List.map_singleton, List.mem_singleton, hlisten,
          p.files.file_neg (by decide)] at hu
        rw [hu]
        exact hstray hlisten
    · refine hs.use_held hQ huses fun fd hfd => ?_
      rw [List.mem_singleton] at hfd
      rw [hfd]
      exact mem_held.mpr ⟨hlisten, Or.inr (Or.inl rfl)⟩
  have hs' : Serving B (p.use [p.ctx.listenFd]) := hs.of_same rfl rfl
  unfold WorkerProcess.notNotified at h
  split at h
  · exact hs'.acceptable hQ huses' h
  · cases h
    unfold serve
    split
    · exact hs'.top hQ huses'
    · exact
        { uses := huses'
          serving := fun _ => hs'.of_same rfl rfl
          watched := fun _ _ h => by cases h }

/-! ## A connection of the loop -/

theorem serveVisit_fd {recvs sends readable writable : Bool} {c : NwcConnection}
    {a : ServeAnswers} :
    (serveVisit recvs sends readable writable c a).nwc.fd
      = if (serveVisit recvs sends readable writable c a).left then -1 else c.fd := by
  unfold serveVisit serveAnswer Visit.dead
  repeat' split
  all_goals simp_all

theorem held_split {ctx : WorkerContext} {pre post : List NwcConnection} (c : NwcConnection)
    (hhdr : ctx.nwcHdr = pre ++ c :: post) :
    held ctx = held { ctx with nwcHdr := pre }
      ++ ([c.fd].filter (· ≠ -1) ++ (post.map fun c => c.fd).filter (· ≠ -1)) := by
  simp only [held, hhdr, List.map_append, List.map_cons]
  rw [← List.filter_append, ← List.filter_append]
  rfl

/-- The connections keep their descriptors, and one that is closed is held no more. -/
theorem Serving.store (hs : Serving B p) {i : Nat} {c : NwcConnection} {v : Visit}
    (hc : p.ctx.nwcHdr[i]? = some c) (hfd : v.nwc.fd = if v.left then -1 else c.fd) :
    Sound B (p.store i c v) := by
  obtain ⟨hi, hget⟩ := List.getElem?_eq_some_iff.mp hc
  obtain ⟨pre, post, hsplit, -, hset⟩ := @List.exists_of_set _ i v.nwc _ hi
  rw [hget] at hsplit
  have hold := held_split c hsplit
  have hnew : held (p.store i c v).ctx = _ := held_split v.nwc hset
  have hcfd : c.fd ≠ -1 := hs.live c (List.mem_of_getElem? hc)
  rw [hfd] at hnew
  cases hleft : v.left with
  | false =>
    have hctx : held (p.store i c v).ctx = held p.ctx := by
      rw [hnew, hleft, hold]
      rfl
    have hfiles : (p.store i c v).files = p.files := by simp [WorkerProcess.store, hleft]
    constructor
    · rw [hctx, hfiles]
      exact hs.opened
    · rw [hctx]
      exact hs.nodup
    · rw [hctx]
      exact hs.bounded
    · exact hs.notify
  | true =>
    rw [hleft] at hnew
    have hfiles : (p.store i c v).files = p.files.closed c.fd := by
      simp [WorkerProcess.store, hleft]
    have hone : [c.fd].filter (· ≠ -1) = [c.fd] := by simp [hcfd]
    have hnodup := hs.nodup
    rw [hold, hone, List.singleton_append, List.nodup_middle] at hnodup
    have hnone : held (p.store i c v).ctx = held { p.ctx with nwcHdr := pre }
        ++ (post.map fun c => c.fd).filter (· ≠ -1) := hnew
    have hsub : List.Sublist (held (p.store i c v).ctx) (held p.ctx) := by
      rw [hnone, hold, hone]
      exact (List.Sublist.refl _).append (List.sublist_cons_self _ _)
    have hnotin : c.fd ∉ held (p.store i c v).ctx := by
      rw [hnone]
      exact (List.nodup_cons.mp hnodup).1
    constructor
    · intro x hx
      have hxc : x ≠ c.fd := by
        rintro rfl
        exact hnotin hx
      rw [hfiles, Table.closed_other _ hxc]
      exact hs.opened x (hsub.subset hx)
    · exact hs.nodup.sublist hsub
    · exact fun x hx => hs.bounded x (hsub.subset hx)
    · exact hs.notify

theorem visitTests_fd {readable : Bool} {c : NwcConnection} {a : ServeAnswers}
    (hfd : fd ∈ visitTests readable c a) : fd = c.fd := by
  rcases List.mem_cons.mp hfd with hfd | hfd
  · exact hfd
  · split at hfd
    · exact List.mem_singleton.mp hfd
    · cases hfd

theorem Serving.visited (hs : Serving B p) (hQ : ∀ fd, 0 ≤ fd → B fd → Q ⟨fd, true⟩)
    (huses : ∀ u ∈ p.uses, Q u) {i : Nat} {readfds writefds : List Int} {c : NwcConnection}
    (hc : p.ctx.nwcHdr[i]? = some c) (a : ServeAnswers) :
    Inv B Q (p.visited i readfds writefds c a) := by
  have hmem : c ∈ p.ctx.nwcHdr := List.mem_of_getElem? hc
  have huses' : ∀ u ∈ (p.use (visitTests (decide (c.fd ∈ readfds)) c a)).uses, Q u := by
    refine hs.use_held hQ huses fun fd hfd => ?_
    rw [visitTests_fd hfd]
    exact mem_held.mpr ⟨hs.live c hmem, Or.inr (Or.inr ⟨c, hmem, rfl⟩)⟩
  have hfd := @serveVisit_fd true true (decide (c.fd ∈ readfds)) (decide (c.fd ∈ writefds)) c a
  have hs' : Serving B (p.use (visitTests (decide (c.fd ∈ readfds)) c a)) := hs.of_same rfl rfl
  have hstore := hs'.store hc hfd
  unfold WorkerProcess.visited
  dsimp only
  split
  · exact hstore.top hQ huses'
  · next hgo =>
    have hleft := (not_or.mp hgo).1
    rw [if_neg hleft] at hfd
    refine { uses := huses', serving := fun _ => ?_, watched := fun _ _ h => by cases h }
    refine { hstore.of_same rfl rfl with live := ?_ }
    intro d hd
    rcases List.mem_or_eq_of_mem_set hd with hd | rfl
    · exact hs.live d hd
    · rw [hfd]
      exact hs.live c hmem

/-! ## All steps -/

/--
The event keeps `B`, and `Q` as well: a descriptor that comes for a new connection is in `B`, and
`FD_ISSET(-1)` is `Q` or does not happen.
-/
def Admits (B : Int → Prop) (Q : FdUse → Prop) (p : WorkerProcess) : Event → Prop
  | .select (.ready readable _ _ msg _ _) =>
    if p.ctx.notifyFd.2 ∈ readable then msg.cmd = CMD_FD → ∀ fd ∈ msg.fd, B fd
    else p.ctx.listenFd = -1 → Q ⟨-1, false⟩
  | _ => True

/-- Which branch the return of `select` takes. -/
theorem Inv.selected_ready (hp : Inv B Q p) {readfds writefds readable writable : List Int}
    (hphase : p.phase = .waiting readfds writefds) {stray : Bool} {msg : WorkerMsg}
    {mem : NwcConnection} {accept : Except Int Int} :
    p.selected readfds writefds (.ready readable writable stray msg mem accept)
      = if p.ctx.notifyFd.2 ∈ readable then (p.use [p.ctx.notifyFd.2]).notified mem msg
        else (p.use [p.ctx.notifyFd.2]).notNotified (readfds.filter (· ∈ readable))
          (writefds.filter (· ∈ writable)) stray accept := by
  have hserving := hp.serving (by simp [hphase])
  have hone : [p.ctx.notifyFd.2].filter (· ≠ -1) = [p.ctx.notifyFd.2] := by
    simp [hserving.notify]
  have hwatched := hp.watched readfds writefds hphase
  simp only [selected, hone, List.mem_filter, hwatched, true_and, decide_eq_true_eq, ne_eq,
    hserving.notify, not_false_eq_true]

theorem Inv.step (hp : Inv B Q p) (hQ : ∀ fd, 0 ≤ fd → B fd → Q ⟨fd, true⟩) {e : Event}
    (he : Admits B Q p e) (h : p.step e = some q) : Inv B Q q := by
  cases e with
  | select answer =>
    simp only [WorkerProcess.step] at h
    split at h
    · next readfds writefds hphase =>
      have hserving := hp.serving (by simp [hphase])
      cases answer with
      | failed errno =>
        cases h
        split
        · exact hserving.top hQ hp.uses
        · exact leave_inv hp.uses
      | ready readable writable stray msg mem accept =>
        rw [hp.selected_ready hphase] at h
        have hs : Serving B (p.use [p.ctx.notifyFd.2]) := hserving.of_same rfl rfl
        have huses : ∀ u ∈ (p.use [p.ctx.notifyFd.2]).uses, Q u := by
          refine hserving.use_held hQ hp.uses fun fd hfd => ?_
          rw [List.mem_singleton.mp hfd]
          exact mem_held.mpr ⟨hserving.notify, Or.inl rfl⟩
        simp only [Admits] at he
        split at h
        · next hnotified =>
          rw [if_pos hnotified] at he
          exact hs.notified hQ huses he h
        · next hnotified =>
          rw [if_neg hnotified] at he
          exact hs.notNotified hQ huses he h
    · cases h
  | visit a =>
    simp only [WorkerProcess.step] at h
    split at h
    · next hphase =>
      obtain ⟨c, hc, rfl⟩ := Option.map_eq_some_iff.mp h
      exact (hp.serving (by simp [hphase])).visited hQ hp.uses hc a
    · cases h
  | signal =>
    simp only [WorkerProcess.step] at h
    split at h
    · cases h
      exact
        { uses := hp.uses
          serving := fun hleft => (hp.serving hleft).of_same rfl rfl
          watched := hp.watched }
    · cases h

/-! ## The processes of the server -/

theorem enter_inv {files : Table Unit} {notifyFd : Int × Int} {listenFd : Int}
    (hQ : ∀ fd, 0 ≤ fd → B fd → Q ⟨fd, true⟩) (hnotify : files.file notifyFd.2 ≠ none)
    (hlisten : listenFd ≠ -1 → files.file listenFd ≠ none ∧ listenFd ≠ notifyFd.2)
    (hB : ∀ fd ∈ ownFds (enter files notifyFd listenFd).ctx, B fd) :
    Inv B Q (enter files notifyFd listenFd) := by
  have hne : notifyFd.2 ≠ -1 := by
    intro heq
    rw [heq, files.file_neg (by decide)] at hnotify
    exact hnotify rfl
  refine Sound.top ?_ hQ (by simp)
  refine { opened := ?_, nodup := ?_, bounded := hB, notify := hne }
  · intro fd hheld
    obtain ⟨hfd, rfl | rfl | ⟨c, hc, -⟩⟩ := mem_held.mp hheld
    · exact hnotify
    · exact (hlisten hfd).1
    · cases hc
  · show ([notifyFd.2, listenFd].filter (· ≠ -1)).Nodup
    by_cases hl : listenFd = -1
    · simp [hl, hne]
    · simp [hl, hne, (hlisten hl).2.symm]

theorem openPair_cases {files files' : Table Unit} {pair : Int × Int}
    (h : openPair files pair = some files') :
    pair.2 ≠ pair.1 ∧ files'.file pair.2 ≠ none ∧
      ∀ x, files.file x ≠ none → x ≠ pair.1 ∧ x ≠ pair.2 ∧ files'.file x ≠ none := by
  unfold openPair at h
  split at h
  · next files₁ hfirst =>
    obtain ⟨-, hnone, hself, hother⟩ := Table.opened_cases hfirst
    obtain ⟨-, hnone', hself', hother'⟩ := Table.opened_cases h
    have hne : pair.2 ≠ pair.1 := by
      intro heq
      rw [heq, hself] at hnone'
      cases hnone'
    refine ⟨hne, by simp [hself'], fun x hx => ?_⟩
    have hx₁ : x ≠ pair.1 := by
      rintro rfl
      exact hx hnone
    rw [← hother x hx₁] at hx
    have hx₂ : x ≠ pair.2 := by
      rintro rfl
      exact hx hnone'
    exact ⟨hx₁, hx₂, by rwa [hother' x hx₂]⟩
  · cases h

/-- A forked worker has its end of its pair, and the master keeps what it had. -/
theorem forkWorkers_cases {pairs : List (Int × Int)} {files files' : Table Unit}
    {workers : List WorkerProcess} (h : forkWorkers files pairs = some (workers, files')) :
    (∀ p ∈ workers, ∃ files' fd, p = enter files' (-1, fd) (-1) ∧ files'.file fd ≠ none) ∧
      ∀ x, files.file x ≠ none → files'.file x ≠ none := by
  induction pairs generalizing files files' workers with
  | nil =>
    cases h
    exact ⟨by simp, fun _ hx => hx⟩
  | cons pair pairs ih =>
    unfold forkWorkers at h
    split at h
    · cases h
    · next files₁ hpair =>
      obtain ⟨hne, hopen, hother⟩ := openPair_cases hpair
      split at h
      · cases h
      · next rest files₂ hrest =>
        cases h
        obtain ⟨hworkers, hkeep⟩ := ih hrest
        refine ⟨?_, fun x hx => ?_⟩
        · rw [List.forall_mem_cons]
          exact ⟨⟨_, _, rfl, by rwa [Table.closed_other _ hne]⟩, hworkers⟩
        · obtain ⟨-, hx₂, hx'⟩ := hother x hx
          exact hkeep x (by rwa [Table.closed_other _ hx₂])

theorem Starts.cases {files : Table Unit} {sockFd : Int} (h : Starts files sockFd p) :
    ∃ files' notifyFd listenFd, p = enter files' notifyFd listenFd ∧
      files'.file notifyFd.2 ≠ none ∧
      (listenFd ≠ -1 → files'.file listenFd ≠ none ∧ listenFd ≠ notifyFd.2) := by
  cases h with
  | worker files₁ files₂ pairs workers hsock hpairs hfork p hp =>
    obtain ⟨files', fd, rfl, hfd⟩ := (forkWorkers_cases hfork).1 p hp
    exact ⟨files', (-1, fd), -1, rfl, hfd, fun h => absurd rfl h⟩
  | master files₁ files₂ files₃ pairs workers pair hsock hpairs hfork hpair =>
    obtain ⟨-, -, hself, -⟩ := Table.opened_cases hsock
    have hopen := (forkWorkers_cases hfork).2 sockFd (by simp [hself])
    obtain ⟨-, hnotify, hother⟩ := openPair_cases hpair
    obtain ⟨-, hne, hopen'⟩ := hother sockFd hopen
    exact ⟨files₃, pair, sockFd, rfl, hnotify, fun _ => ⟨hopen', hne⟩⟩

/-! ## Results -/

/-- Whatever happens, nothing that is closed is tested: if not `-1`, it is open. -/
theorem tests_open {files : Table Unit} {sockFd : Int} (hstart : Starts files sockFd p)
    {events : List Event} (hrun : replay step p events = some q) :
    ∀ u ∈ q.uses, u.fd = -1 ∨ u.opened = true := by
  obtain ⟨files', notifyFd, listenFd, rfl, hnotify, hlisten⟩ := hstart.cases
  have hinv : Inv (fun _ => True) (fun u => u.fd = -1 ∨ u.opened = true)
      (enter files' notifyFd listenFd) :=
    enter_inv (fun _ _ _ => Or.inr rfl) hnotify hlisten fun _ _ => trivial
  refine (replay_invariant (I := fun _ => True) (fun s e s' _ hs hstep => ?_)
    (fun _ _ => trivial) hinv hrun).uses
  refine hs.step (fun _ _ _ => Or.inr rfl) ?_ hstep
  unfold Admits
  split
  · split
    · exact fun _ _ _ => trivial
    · exact fun _ => Or.inl rfl
  · trivial

/--
When `select` returns, `notify_fd[1]` is readable or there is a listening socket. A descriptor that
comes for a new connection fits into the sets.
-/
def Fits (p : WorkerProcess) : Event → Prop
  | .select (.ready readable _ _ msg _ _) =>
    if p.ctx.notifyFd.2 ∈ readable then msg.cmd = CMD_FD → ∀ fd ∈ msg.fd, fd < FD_SETSIZE
    else p.ctx.listenFd ≠ -1
  | _ => True

instance (p : WorkerProcess) : ∀ e, Decidable (p.Fits e)
  | .select (.ready readable _ _ msg _ _) =>
    inferInstanceAs (Decidable
      (if p.ctx.notifyFd.2 ∈ readable then msg.cmd = CMD_FD → ∀ fd ∈ msg.fd, fd < FD_SETSIZE
        else p.ctx.listenFd ≠ -1))
  | .select (.failed _) => .isTrue trivial
  | .visit _ => .isTrue trivial
  | .signal => .isTrue trivial

instance (u : FdUse) : Decidable u.Valid :=
  decidable_of_iff (0 ≤ u.fd ∧ u.fd < FD_SETSIZE ∧ u.opened = true)
    ⟨fun ⟨h₁, h₂, h₃⟩ => ⟨h₁, h₂, h₃⟩, fun ⟨h₁, h₂, h₃⟩ => ⟨h₁, h₂, h₃⟩⟩

theorem Fits.admits {e : Event} (h : p.Fits e) : Admits (· < FD_SETSIZE) FdUse.Valid p e := by
  cases e with
  | select answer =>
    cases answer with
    | failed errno => trivial
    | ready readable writable stray msg mem accept =>
      simp only [Fits] at h
      simp only [Admits]
      split
      · next hnotified =>
        rw [if_pos hnotified] at h
        exact h
      · next hnotified =>
        rw [if_neg hnotified] at h
        exact fun hlisten => absurd hlisten h
  | visit a => trivial
  | signal => trivial

theorem mem_top_uses {u : FdUse} (hu : u ∈ p.uses) : u ∈ p.top.uses :=
  List.mem_append_left _ hu

/-- What has been called stays noted. -/
theorem notNotified_uses {readfds writefds : List Int} {stray : Bool} {accept : Except Int Int}
    (h : p.notNotified readfds writefds stray accept = some q) {u : FdUse}
    (hu : u ∈ (p.use [p.ctx.listenFd]).uses) : u ∈ q.uses := by
  unfold notNotified at h
  split at h
  · unfold acceptable at h
    split at h
    · cases h
      split
      · exact hu
      · exact mem_top_uses hu
    · obtain ⟨files, -, rfl⟩ := Option.map_eq_some_iff.mp h
      exact mem_top_uses hu
  · cases h
    unfold serve
    split
    · exact mem_top_uses hu
    · exact hu

/-- A new connection is set at the top of the loop. -/
theorem addConnection_uses (mem : NwcConnection) (hfd : fd ≠ -1) :
    ∃ u ∈ (p.addConnection mem fd).top.uses, u.fd = fd := by
  refine ⟨_, List.mem_append_right _ (List.mem_map.mpr ⟨fd, ?_, rfl⟩), rfl⟩
  refine List.mem_append_right _ (List.mem_flatMap.mpr ⟨_, List.mem_filter.mpr
    ⟨List.mem_append_right _ List.mem_cons_self, ?_⟩, ?_⟩)
  · simp [allocNwcConn, hfd]
  · simp [allocNwcConn]

/-- An event that does not fit leads to a call that is not valid. -/
theorem Inv.step_invalid (hp : Inv B Q p) {e : Event} (he : ¬p.Fits e) (h : p.step e = some q) :
    ∃ u ∈ q.uses, ¬u.Valid := by
  cases e with
  | select answer =>
    cases answer with
    | failed errno => exact absurd trivial he
    | ready readable writable stray msg mem accept =>
      simp only [WorkerProcess.step] at h
      split at h
      · next readfds writefds hphase =>
        rw [hp.selected_ready hphase] at h
        simp only [Fits] at he
        split at h
        · next hnotified =>
          rw [if_pos hnotified] at he
          obtain ⟨hcmd, hfit⟩ := Classical.not_imp.mp he
          push Not at hfit
          obtain ⟨fd, hfd, hbig⟩ := hfit
          obtain ⟨r, -, rfl⟩ := Option.map_eq_some_iff.mp h
          rw [if_pos hcmd, Option.mem_def.mp hfd, Option.getD_some]
          have hpos : (0 : Int) < FD_SETSIZE := by decide
          obtain ⟨u, hu, rfl⟩ := r.addConnection_uses mem (show fd ≠ -1 by omega)
          exact ⟨u, hu, fun hvalid => by
            have := hvalid.small
            omega⟩
        · next hnotified =>
          rw [if_neg hnotified, not_not] at he
          refine ⟨_, notNotified_uses h (List.mem_append_right _ List.mem_cons_self), ?_⟩
          intro hvalid
          have hlisten : (p.use [p.ctx.notifyFd.2]).ctx.listenFd = -1 := he
          have := hvalid.nonneg
          simp only [hlisten] at this
          omega
      · cases h
  | visit a => exact absurd trivial he
  | signal => exact absurd trivial he

/--
**When the sets are used with valid descriptors only.**

In a run of a worker or of the master, everything that is passed to `FD_SET` or `FD_ISSET` is open
and below `FD_SETSIZE` exactly if the descriptors that the process starts with fit, those that it
gets for connections fit, and `select` does not return to a worker other than for a message.
-/
theorem setsValid_iff (files : Table Unit) (sockFd : Int) (p q : WorkerProcess)
    (events : List Event) (hstart : Starts files sockFd p)
    (hrun : replay step p events = some q) :
    (∀ t, Visits step p events t → ∀ u ∈ t.uses, u.Valid) ↔
      (∀ fd ∈ ownFds p.ctx, fd < FD_SETSIZE) ∧ Along step p events Fits := by
  obtain ⟨files', notifyFd, listenFd, rfl, hnotify, hlisten⟩ := hstart.cases
  have hQ : ∀ fd, 0 ≤ fd → fd < FD_SETSIZE → FdUse.Valid ⟨fd, true⟩ :=
    fun fd hpos hsmall => ⟨hpos, hsmall, rfl⟩
  have hiff : (∀ fd ∈ ownFds (enter files' notifyFd listenFd).ctx, fd < FD_SETSIZE) →
      ((∀ t, Visits step (enter files' notifyFd listenFd) events t → ∀ u ∈ t.uses, u.Valid) ↔
        Along step (enter files' notifyFd listenFd) events Fits) := by
    intro hown
    have henter : Inv (· < FD_SETSIZE) FdUse.Valid (enter files' notifyFd listenFd) :=
      enter_inv hQ hnotify hlisten hown
    exact exact_rule (fun _ hinv => hinv.uses)
      (fun _ _ _ hinv hfits hstep => hinv.step hQ hfits.admits hstep)
      (fun _ _ _ hinv hfits hstep hall => by
        obtain ⟨u, hu, hinvalid⟩ := hinv.step_invalid hfits hstep
        exact hinvalid (hall u hu))
      henter hrun
  constructor
  · intro hall
    -- the first calls are those for the descriptors of the context
    have hown : ∀ fd ∈ ownFds (enter files' notifyFd listenFd).ctx, fd < FD_SETSIZE := by
      intro fd hfd
      refine (hall _ ⟨[], List.nil_prefix, rfl⟩ ⟨fd, (files'.file fd).isSome⟩ ?_).small
      refine List.mem_append_right _ (List.mem_map.mpr ⟨fd, ?_, rfl⟩)
      exact List.mem_append_left _ hfd
    exact ⟨hown, (hiff hown).mp hall⟩
  · rintro ⟨hown, hfits⟩
    exact (hiff hown).mpr hfits

/-- A server that listens on 3 and forks a worker on the pair 4 and 5. -/
def sampleFork : Option (List WorkerProcess × Table Unit) :=
  ((Table.empty : Table Unit).opened 3 ()).bind fun files => forkWorkers files [(4, 5)]

theorem sampleFork_starts (P : WorkerProcess → Prop)
    (h : ∃ r ∈ sampleFork, ∃ p ∈ r.1, P p) : ∃ p, Starts Table.empty 3 p ∧ P p := by
  obtain ⟨r, hr, p, hp, hP⟩ := h
  obtain ⟨files, hfiles, hfork⟩ := Option.bind_eq_some_iff.mp hr
  exact ⟨p, .worker files r.2 [(4, 5)] r.1 hfiles (by decide) hfork p hp, hP⟩

/-- The master has sent a connection, which arrives as 6. -/
def connectionArrives : Event :=
  .select (.ready [5] [] false { cmd := CMD_FD, fd := some 6 } .blank (.error EAGAIN))

/-- The client has sent something. -/
def pingArrives : Event :=
  .select (.ready [6] [] false { cmd := 0, fd := none } .blank (.error EAGAIN))

theorem connectionArrives_valid : ∃ p, Starts Table.empty 3 p ∧ ∃ q,
    replay step p [connectionArrives] = some q ∧
      ∀ t, Visits step p [connectionArrives] t → ∀ u ∈ t.uses, u.Valid := by
  obtain ⟨p, hstart, hrun, hfits⟩ := sampleFork_starts
    (fun p => (replay step p [connectionArrives]).isSome ∧
      (∀ fd ∈ ownFds p.ctx, fd < FD_SETSIZE) ∧ Along step p [connectionArrives] Fits)
    (by decide +kernel)
  obtain ⟨q, hq⟩ := Option.isSome_iff_exists.mp hrun
  exact ⟨p, hstart, q, hq, (setsValid_iff _ _ p q _ hstart hq).mpr hfits⟩

/-- What the first client sends makes its worker test the descriptor `-1`. -/
theorem pingArrives_invalid : ∃ p, Starts Table.empty 3 p ∧ ∃ q,
    replay step p [connectionArrives, pingArrives] = some q ∧ ∃ u ∈ q.uses, ¬u.Valid := by
  obtain ⟨p, hstart, hrun⟩ := sampleFork_starts
    (fun p => ∃ q ∈ replay step p [connectionArrives, pingArrives], ∃ u ∈ q.uses, ¬u.Valid)
    (by decide +kernel)
  exact ⟨p, hstart, hrun⟩

end WorkerProcess

end Nwchecker.UnixIo
