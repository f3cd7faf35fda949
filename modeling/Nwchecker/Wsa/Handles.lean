import Mathlib.Data.List.Perm.Basic
import Nwchecker.Wsa.Server

/-!
# The handles of the WSA event server

Each connection has a socket and an event of its own, in two arrays that are packed whenever the
loop comes round, and the two are given back at different times: the socket when the connection
ends, the event when the table is packed next. `handles_exact` says that neither is lost or given
back twice, and that the arrays never get out of step.

`FD_READ` of an entry that is dead already would close its socket again. It does not come to that:
behind a packing all entries are alive, and the loop over them visits each one once.
-/

namespace Nwchecker.Wsa

open Loop Machine Packing

/-- Which socket goes with which event. -/
def Entry.handles (e : Entry) : Nat × Int := (e.event, e.sockfd)

namespace Server

/-- The entries of the table. -/
def entries (s : Server) : List Entry := firsts s.tables.entry s.nrEvents

/--
**Nothing is lost and nothing is given back twice.** The listening socket is accounted for as well.
-/
structure Exact (s : Server) : Prop where
  /-- Each event that was created is closed, or is in the table. -/
  events : (s.closed ++ s.entries.map Entry.event).Perm (s.made.map Entry.event)
  /-- Each socket is closed, or is in a live entry of the table. -/
  sockets : (s.shut ++ (s.entries.filter Entry.live).map Entry.sockfd).Perm
    (s.made.map Entry.sockfd)
  /-- The live entries have the handles that they came with, in the order of `accept`. -/
  handles : ((s.entries.filter Entry.live).map Entry.handles).Sublist (s.made.map Entry.handles)

variable {s t : Server} {n m : Nat} {a : EntryAnswers} {e : Event}

theorem start_exact {listenEvent : Nat} {sockFd : Int} (hsock : sockFd ≠ INVALID_SOCKET) :
    (start listenEvent sockFd).Exact := by
  have hentries : (start listenEvent sockFd).entries
      = [{ event := listenEvent, sockfd := sockFd, ioevent := 0 }] := rfl
  have hlive : Entry.live { event := listenEvent, sockfd := sockFd, ioevent := 0 } = true :=
    decide_eq_true hsock
  refine ⟨.refl _, ?_, ?_⟩
  · rw [hentries, List.filter_singleton, hlive]
    exact .refl _
  · rw [hentries, List.filter_singleton, hlive]
    exact .refl _

/-! ## One change of the table -/

/-- What an entry waits for is no handle. -/
theorem Exact.of_handles (h : s.Exact) (hentries : t.entries.map Entry.handles
    = s.entries.map Entry.handles) (hmade : t.made = s.made) (hclosed : t.closed = s.closed)
    (hshut : t.shut = s.shut) : t.Exact := by
  have hlive : ∀ l : List Entry, (l.filter Entry.live).map Entry.handles
      = (l.map Entry.handles).filter fun x => decide (x.2 ≠ INVALID_SOCKET) := by
    intro l
    rw [List.filter_map]
    rfl
  have hevent : ∀ l : List Entry, l.map Entry.event = (l.map Entry.handles).map Prod.fst := by
    intro l
    rw [List.map_map]
    rfl
  have hsockfd : ∀ l : List Entry, l.map Entry.sockfd = (l.map Entry.handles).map Prod.snd := by
    intro l
    rw [List.map_map]
    rfl
  refine ⟨?_, ?_, ?_⟩
  · rw [hclosed, hmade, hevent, hentries, ← hevent]
    exact h.events
  · rw [hshut, hmade, hsockfd, hlive, hentries, ← hlive, ← hsockfd]
    exact h.sockets
  · rw [hmade, hlive, hentries, ← hlive]
    exact h.handles

theorem Exact.setIoevent (h : s.Exact) (n : Nat) (io : Int32) : (s.setIoevent n io).Exact :=
  h.of_handles (by simp only [entries, firsts, List.map_map]; rfl) rfl rfl rfl

/-- `sockfds[n] = -1` -/
theorem drop_entries (fd : Int) (hn : n < s.nrEvents) : ∃ l₁ l₂,
    s.entries = l₁ ++ s.tables.entry n :: l₂ ∧
    (s.drop n fd).entries = l₁ ++ { s.tables.entry n with sockfd := INVALID_SOCKET } :: l₂ := by
  have hsplit : List.range s.nrEvents
      = List.range n ++ n :: List.range' (n + 1) (s.nrEvents - (n + 1)) := by
    have hcount : s.nrEvents = n + (s.nrEvents - (n + 1) + 1) := by omega
    rw [← List.range'_succ, List.range_eq_range', List.range_eq_range']
    conv_lhs => rw [hcount, ← List.range'_append_1, Nat.zero_add]
  have hother : ∀ i, i ≠ n → (s.drop n fd).tables.entry i = s.tables.entry i := by
    intro i hi
    have hsock : Function.update s.tables.sockfds n INVALID_SOCKET i = s.tables.sockfds i :=
      Function.update_of_ne hi ..
    simp only [drop, Tables.entry, hsock]
  have hself : (s.drop n fd).tables.entry n
      = { s.tables.entry n with sockfd := INVALID_SOCKET } := by
    have hsock : Function.update s.tables.sockfds n INVALID_SOCKET n = INVALID_SOCKET :=
      Function.update_self ..
    simp only [drop, Tables.entry, hsock]
  refine ⟨(List.range n).map s.tables.entry,
    (List.range' (n + 1) (s.nrEvents - (n + 1))).map s.tables.entry, ?_, ?_⟩
  · rw [entries, firsts, hsplit, List.map_append, List.map_cons]
  · show (List.range s.nrEvents).map (s.drop n fd).tables.entry = _
    rw [hsplit, List.map_append, List.map_cons, hself]
    congr 1
    · exact List.map_congr_left fun i hi => hother i (Nat.ne_of_lt (List.mem_range.mp hi))
    · congr 1
      refine List.map_congr_left fun i hi => hother i ?_
      obtain ⟨hle, -⟩ := List.mem_range'_1.mp hi
      omega

/-- A socket that is closed was in a live entry, and its event stays in the table. -/
theorem Exact.drop (h : s.Exact) (hn : n < s.nrEvents)
    (hlive : s.tables.sockfds n ≠ INVALID_SOCKET) : (s.drop n (s.tables.sockfds n)).Exact := by
  obtain ⟨l₁, l₂, hentries, hdropped⟩ := drop_entries (s.tables.sockfds n) hn
  have hbefore : s.entries.filter Entry.live
      = l₁.filter Entry.live ++ s.tables.entry n :: l₂.filter Entry.live := by
    rw [hentries, List.filter_append, List.filter_cons_of_pos]
    exact decide_eq_true hlive
  have hafter : (s.drop n (s.tables.sockfds n)).entries.filter Entry.live
      = l₁.filter Entry.live ++ l₂.filter Entry.live := by
    rw [hdropped, List.filter_append, List.filter_cons_of_neg]
    simp [Entry.live]
  obtain ⟨hevents, hsockets, hhandles⟩ := h
  refine ⟨?_, ?_, ?_⟩
  · rw [hentries, List.map_append, List.map_cons] at hevents
    rw [hdropped, List.map_append, List.map_cons]
    exact hevents
  · rw [hbefore, List.map_append, List.map_cons] at hsockets
    rw [hafter, List.map_append]
    show (s.shut ++ [s.tables.sockfds n] ++ _).Perm _
    rw [List.append_assoc, List.singleton_append]
    exact (List.perm_middle.symm.append_left s.shut).trans hsockets
  · rw [hbefore] at hhandles
    rw [hafter]
    refine List.Sublist.trans (List.Sublist.map _ ?_) hhandles
    exact (List.sublist_cons_self _ _).append_left _

/-- A connection that comes in. -/
theorem Exact.append (h : s.Exact) {x : Entry} (hx : x.live = true) : (s.append x).Exact := by
  have hentries : (s.append x).entries = s.entries ++ [x] := by
    show firsts (s.tables.put s.nrEvents x).entry (s.nrEvents + 1) = _
    rw [Tables.put_entry, firsts_succ, Function.update_self]
    congr 1
    exact List.map_congr_left fun i hi =>
      Function.update_of_ne (Nat.ne_of_lt (List.mem_range.mp hi)) ..
  obtain ⟨hevents, hsockets, hhandles⟩ := h
  refine ⟨?_, ?_, ?_⟩
  · rw [hentries, List.map_append, ← List.append_assoc]
    exact (hevents.append_right _).trans (List.map_append ▸ .refl _)
  · rw [hentries, List.filter_append, List.filter_singleton, hx, List.map_append,
      ← List.append_assoc]
    exact (hsockets.append_right _).trans (List.map_append ▸ .refl _)
  · rw [hentries, List.filter_append, List.filter_singleton, hx, List.map_append]
    exact (hhandles.append_right _).trans (List.map_append ▸ .refl _)

/-- Packing closes the events of the dead entries. -/
theorem Exact.compacted {c : Compaction} (h : s.Exact) (hc : Compacted s.tables s.nrEvents c) :
    (s.compacted c).Exact := by
  have hentries : (s.compacted c).entries = s.entries.filter Entry.live := hc.live
  have hlive : (s.entries.filter Entry.live).filter Entry.live = s.entries.filter Entry.live := by
    rw [List.filter_filter]
    simp
  obtain ⟨hevents, hsockets, hhandles⟩ := h
  refine ⟨?_, ?_, ?_⟩
  · show (s.closed ++ c.closed ++ (s.compacted c).entries.map Entry.event).Perm _
    rw [hentries, hc.closed, List.append_assoc, ← List.map_append]
    refine (List.Perm.append_left _ (List.Perm.map _ ?_)).trans hevents
    exact List.perm_append_comm.trans (List.filter_append_perm Entry.live s.entries)
  · rw [hentries, hlive]
    exact hsockets
  · rw [hentries, hlive]
    exact hhandles

/-! ## The loop over the entries -/

/-- In front of the pass `n`: the entries from `n` on are alive still. -/
structure Ready (n : Nat) (s : Server) : Prop where
  exact : s.Exact
  live : ∀ i, n ≤ i → i < s.nrEvents → s.tables.sockfds i ≠ INVALID_SOCKET

/-- After packing. -/
theorem Exact.ready {c : Compaction} (h : s.Exact) (hc : Compacted s.tables s.nrEvents c)
    (n : Nat) : Ready n (s.compacted c) where
  exact := h.compacted hc
  live := by
    intro i _ hi
    have hmem : c.tables.entry i ∈ firsts c.tables.entry c.lidx :=
      List.mem_map_of_mem (List.mem_range.mpr hi)
    rw [hc.live] at hmem
    exact of_decide_eq_true (List.mem_filter.mp hmem).2

theorem Ready.next (h : Ready n s) : Ready (n + 1) s where
  exact := h.exact
  live := fun i hi => h.live i (Nat.le_of_succ_le hi)

theorem Ready.drop (h : Ready n s) (hn : n < s.nrEvents) :
    Ready (n + 1) (s.drop n (s.tables.sockfds n)) where
  exact := h.exact.drop hn (h.live n (Nat.le_refl n) hn)
  live := by
    intro i hi hlt
    have hsock : (s.drop n (s.tables.sockfds n)).tables.sockfds i = s.tables.sockfds i :=
      Function.update_of_ne (by omega) ..
    rw [hsock]
    exact h.live i (Nat.le_of_succ_le hi) hlt

theorem Ready.setIoevent (h : Ready n s) (m : Nat) (io : Int32) : Ready n (s.setIoevent m io) where
  exact := h.exact.setIoevent m io
  live := h.live

/-- The sockets of the entries are those of `s`. -/
structure SameSockets (s t : Server) : Prop where
  count : t.nrEvents = s.nrEvents
  sockfds : t.tables.sockfds = s.tables.sockfds

theorem Ready.acceptConnection (h : Ready n s) (a : EntryAnswers) :
    Ready n (s.acceptConnection a) ∧ s.nrEvents ≤ (s.acceptConnection a).nrEvents := by
  unfold Server.acceptConnection
  split
  · split
    · exact ⟨h, Nat.le_refl _⟩
    · split
      · next hnew =>
        refine ⟨⟨h.exact.append (decide_eq_true hnew), fun i hi hlt => ?_⟩, Nat.le_succ _⟩
        show Function.update s.tables.sockfds s.nrEvents a.newfd i ≠ INVALID_SOCKET
        by_cases hlast : i = s.nrEvents
        · rw [hlast, Function.update_self]
          exact hnew
        · rw [Function.update_of_ne hlast]
          exact h.live i hi (by have hle : i < s.nrEvents + 1 := hlt; omega)
      · exact ⟨h, Nat.le_refl _⟩
  · exact ⟨h, Nat.le_refl _⟩

theorem Ready.receive (h : Ready n s) (hn : n < s.nrEvents) (a : EntryAnswers) :
    (∀ t, s.receive n (s.tables.sockfds n) a = .again t → t = s) ∧
      ∀ t, s.receive n (s.tables.sockfds n) a = .leave t → t.Exact := by
  unfold Server.receive
  split
  · split
    · exact Flow.at_leave (h.drop hn).exact
    · split
      · exact Flow.at_leave (h.drop hn).exact
      · exact Flow.at_again rfl
  · exact Flow.at_again rfl

theorem Ready.pong (h : Ready n s) (hn : n < s.nrEvents) (a : EntryAnswers) :
    (∀ t, s.pong n (s.tables.sockfds n) a = .again t → Ready n t ∧ SameSockets s t) ∧
      ∀ t, s.pong n (s.tables.sockfds n) a = .leave t → t.Exact := by
  unfold Server.pong
  split
  · have hmasked : Ready n
        (if s.tables.ioevents n &&& 2 ≠ 0 then s.setIoevent n (s.tables.ioevents n &&& 1)
          else s) ∧ SameSockets s
        (if s.tables.ioevents n &&& 2 ≠ 0 then s.setIoevent n (s.tables.ioevents n &&& 1)
          else s) := by
      split
      · exact ⟨h.setIoevent n _, rfl, rfl⟩
      · exact ⟨h, rfl, rfl⟩
    dsimp only
    generalize (if s.tables.ioevents n &&& 2 ≠ 0 then s.setIoevent n (s.tables.ioevents n &&& 1)
      else s) = u at hmasked ⊢
    obtain ⟨hready, hcount, hsockfds⟩ := hmasked
    split
    · split
      · exact Flow.at_again ⟨hready.setIoevent n _, hcount, hsockfds⟩
      · rw [← hsockfds]
        exact Flow.at_leave (hready.drop (hcount ▸ hn)).exact
    · exact Flow.at_again ⟨hready, hcount, hsockfds⟩
  · exact Flow.at_again ⟨h, rfl, rfl⟩

theorem Ready.closing (h : Ready n s) (hn : n < s.nrEvents) (a : EntryAnswers) :
    Ready (n + 1) (s.closing n (s.tables.sockfds n) a) ∧
      (s.closing n (s.tables.sockfds n) a).nrEvents = s.nrEvents := by
  unfold Server.closing
  split
  · exact ⟨h.drop hn, rfl⟩
  · exact ⟨h.next, rfl⟩

/-- One entry. The table does not get shorter. -/
theorem Ready.visit (h : Ready n s) (hn : n < s.nrEvents) (a : EntryAnswers) :
    (∀ t, s.visit (n, a) = .again t → Ready (n + 1) t ∧ s.nrEvents ≤ t.nrEvents) ∧
      ∀ t, s.visit (n, a) = .leave t → t.Exact := by
  have hused : Ready n (s.use [n]) := ⟨h.exact.of_handles rfl rfl rfl rfl, h.live⟩
  unfold Server.visit
  dsimp only
  split
  · exact Flow.at_again ⟨hused.next, Nat.le_refl _⟩
  · split
    · obtain ⟨haccepted, hle⟩ := hused.acceptConnection a
      exact Flow.at_again ⟨haccepted.next, hle⟩
    · obtain ⟨hagain, hleave⟩ := hused.receive hn a
      split
      · next t ht => exact Flow.at_leave (hleave t ht)
      · next t ht =>
        cases hagain t ht
        obtain ⟨hagain', hleave'⟩ := hused.pong hn a
        split
        · next u hu => exact Flow.at_leave (hleave' u hu)
        · next u hu =>
          obtain ⟨hready, hcount, hsockfds⟩ := hagain' u hu
          rw [← hsockfds]
          obtain ⟨hnext, hsame⟩ := hready.closing (hcount ▸ hn) a
          exact Flow.at_again ⟨hnext, Nat.le_of_eq (hcount.symm.trans hsame.symm)⟩

/-- All entries from the signalled one on. -/
theorem Ready.visitAll (h : Ready n s) (hn : n ≤ s.nrEvents) (answers : Nat → EntryAnswers) :
    (s.visitAll n answers).Exact := by
  have hpass : ∀ i t u, i < s.nrEvents → (Ready i t ∧ s.nrEvents ≤ t.nrEvents) →
      Server.visit (i, answers i) t = .again u → Ready (i + 1) u ∧ s.nrEvents ≤ u.nrEvents := by
    intro i t u hi ⟨ht, hle⟩ hu
    obtain ⟨hnext, hle'⟩ := (ht.visit (Nat.lt_of_lt_of_le hi hle) (answers i)).1 u hu
    exact ⟨hnext, Nat.le_trans hle hle'⟩
  have hbreak : ∀ i t u, i < s.nrEvents → (Ready i t ∧ s.nrEvents ≤ t.nrEvents) →
      Server.visit (i, answers i) t = .leave u → u.Exact := by
    intro i t u hi ⟨ht, hle⟩ hu
    exact (ht.visit (Nat.lt_of_lt_of_le hi hle) (answers i)).2 u hu
  obtain ⟨hagain, hleave⟩ := passes_range_rule hpass hbreak (s.nrEvents - n)
    (Nat.add_sub_cancel' hn) ⟨h, Nat.le_refl _⟩
  unfold Server.visitAll
  dsimp only
  split
  · next t ht => exact (hagain t ht).1.exact
  · next t ht => exact hleave t ht

theorem Exact.step (h : s.Exact) (hstep : s.step e = some t) : t.Exact := by
  obtain ⟨c, hc, ⟨-, rfl⟩ | ⟨nIndex, answers, -, hlt, rfl⟩⟩ := step_cases hstep
  · exact (h.compacted hc).of_handles rfl rfl rfl rfl
  · exact (h.ready hc nIndex).visitAll (Nat.le_of_lt hlt) answers

/--
**No handle is lost, given back twice or mixed up with that of another connection.**

In every run of the server: each event that was created is closed or in the table, each socket is
closed or in a live entry, and the live entries have the handles that they came with, in the order
of `accept`.
-/
theorem handles_exact (listenEvent : Nat) (sockFd : Int) (es : List Event) (s : Server)
    (hsock : sockFd ≠ INVALID_SOCKET)
    (hrun : replay Server.step (start listenEvent sockFd) es = some s) : s.Exact :=
  replay_invariant (I := fun _ => True) (fun _ _ _ _ h hstep => h.step hstep)
    (fun _ _ => trivial) (start_exact hsock) hrun

/-- The first of two clients has left, and the table was packed. -/
theorem oneLeaves_exact : ∃ s, replay Server.step (start 40 4) oneLeaves = some s ∧
    s.made.map Entry.handles = [(40, 4), (50, 5), (60, 6)] ∧ s.closed = [50] ∧ s.shut = [5] ∧
      s.Exact := by
  have hview : (replay Server.step (start 40 4) oneLeaves).map (fun s =>
      (s.made.map Entry.handles, s.closed, s.shut))
        = some ([(40, 4), (50, 5), (60, 6)], [50], [5]) := by decide +kernel
  obtain ⟨s, hs, hfacts⟩ := Option.map_eq_some_iff.mp hview
  simp only [Prod.mk.injEq] at hfacts
  obtain ⟨hmade, hclosed, hshut⟩ := hfacts
  exact ⟨s, hs, hmade, hclosed, hshut, handles_exact 40 4 oneLeaves s (by decide) hs⟩

end Server

end Nwchecker.Wsa
