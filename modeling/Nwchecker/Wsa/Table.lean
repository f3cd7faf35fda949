import Nwchecker.Lib.Loop
import Nwchecker.Lib.Packing

/-!
# The table of the WSA event server

The three arrays of `wsaselectdemo_server/nwchecker_server.c`, and the loop that takes out of them
the sockets that have been closed.

Every index at which an array is read or written is recorded in `used`. The arrays have an element
at every index, and what lies behind the first `nr_events` of them is never looked at
(`Compacted.used`), so it does not matter how long they are.
-/

namespace Nwchecker.Wsa

open Loop Packing

/-- `INVALID_SOCKET`, and the `-1` of an entry that is dead. -/
def INVALID_SOCKET : Int := -1

/-- `events`, `sockfds` and `ioevents`. A `WSAEVENT` is a number. -/
structure Tables where
  events : Nat → Nat
  sockfds : Nat → Int
  ioevents : Nat → Int32

/-- What the three arrays have at one index. -/
structure Entry where
  event : Nat
  sockfd : Int
  ioevent : Int32
  deriving DecidableEq, Repr

def Entry.live (e : Entry) : Bool := e.sockfd ≠ INVALID_SOCKET

namespace Tables

def entry (t : Tables) (i : Nat) : Entry where
  event := t.events i
  sockfd := t.sockfds i
  ioevent := t.ioevents i

/-- All three arrays at once. -/
def put (t : Tables) (i : Nat) (e : Entry) : Tables where
  events := Function.update t.events i e.event
  sockfds := Function.update t.sockfds i e.sockfd
  ioevents := Function.update t.ioevents i e.ioevent

theorem put_entry (t : Tables) (i : Nat) (e : Entry) :
    (t.put i e).entry = Function.update t.entry i e := by
  funext j
  by_cases hj : j = i
  · subst hj
    simp [put, entry]
  · simp [put, entry, Function.update_of_ne hj]

end Tables

/-! ## The loop -/

/-- The inner loop: where it leaves `nidx`, and the events that it closes. -/
structure Scan where
  nidx : Nat
  closed : List Nat
  used : List Nat
  deriving DecidableEq, Repr

/-- `for (; nidx < nr_events; ++nidx)`, in which `k` entries lie before it. -/
def scanDead (t : Tables) : Nat → Nat → Scan
  | 0, nidx => { nidx := nidx, closed := [], used := [] }
  | k + 1, nidx =>
    if t.sockfds nidx = INVALID_SOCKET then
      let rest := scanDead t k (nidx + 1)
      { rest with
        closed := t.events nidx :: rest.closed
        used := nidx :: rest.used }
    else { nidx := nidx, closed := [], used := [nidx] }

/-- The outer loop. `nidx` is `-1` as long as no dead entry has been found, here `none`. -/
structure Compaction where
  tables : Tables
  lidx : Nat
  nidx : Option Nat
  /-- What `WSACloseEvent` has been called with. -/
  closed : List Nat
  used : List Nat

/-- `int lidx = 0, nidx = -1` -/
def Compaction.start (t : Tables) : Compaction where
  tables := t
  lidx := 0
  nidx := none
  closed := []
  used := []

/-- One pass of the outer loop. -/
def compactPass (nrEvents : Nat) (c : Compaction) : Flow Compaction Compaction :=
  if c.lidx < nrEvents then
    match c.nidx with
    | none =>
      let c := { c with used := c.used ++ [c.lidx] }
      if c.tables.sockfds c.lidx = INVALID_SOCKET then .again { c with nidx := some c.lidx }
      else .again { c with lidx := c.lidx + 1 }
    | some nidx =>
      let scan := scanDead c.tables (nrEvents - nidx) nidx
      let c :=
        { c with
          nidx := some scan.nidx
          closed := c.closed ++ scan.closed
          used := c.used ++ scan.used }
      if scan.nidx = nrEvents then .leave c
      else
        .again
          { c with
            tables := c.tables.put c.lidx (c.tables.entry scan.nidx)
            lidx := c.lidx + 1
            nidx := some (scan.nidx + 1)
            used := c.used ++ [c.lidx, scan.nidx] }
  else .leave c

/-- The whole loop, for at most `fuel` passes. `nr_events` is `lidx` then. -/
def compact (fuel nrEvents : Nat) (t : Tables) : Option Compaction :=
  match passes (fun _ : Unit => compactPass nrEvents) (List.replicate fuel ()) (.start t) with
  | .leave c => some c
  | .again _ => none

/-! ## What it does -/

/-- **The table is packed.** -/
structure Compacted (t : Tables) (nrEvents : Nat) (c : Compaction) : Prop where
  /-- What is left are the live entries, in their order. -/
  live : firsts c.tables.entry c.lidx = (firsts t.entry nrEvents).filter Entry.live
  count : c.lidx = (firsts t.entry nrEvents).countP Entry.live
  /-- Of each dead entry the event has been closed, once, and of no other. -/
  closed : c.closed = ((firsts t.entry nrEvents).filter fun e => !e.live).map Entry.event
  used : ∀ i ∈ c.used, i < nrEvents

variable {t t₀ : Tables} {nrEvents : Nat} {c c' : Compaction}

/-- The inner loop closes the events of the dead entries that it comes over, and stops at a live one
or at the end. -/
structure Scanned (t : Tables) (nrEvents nidx : Nat) (s : Scan) : Prop where
  le : nidx ≤ s.nidx
  bound : s.nidx ≤ nrEvents
  dead : ∀ i, nidx ≤ i → i < s.nidx → (t.entry i).live = false
  live : s.nidx < nrEvents → (t.entry s.nidx).live = true
  closed : s.closed = (List.range' nidx (s.nidx - nidx)).map t.events
  used : ∀ i ∈ s.used, i < nrEvents

theorem scanDead_scanned (t : Tables) : ∀ k nidx,
    Scanned t (nidx + k) nidx (scanDead t k nidx)
  | 0, nidx => by
    refine ⟨Nat.le_refl _, Nat.le_refl _, ?_, ?_, ?_, ?_⟩
    · intro i hle hlt
      exact absurd hlt (Nat.not_lt.mpr hle)
    · exact fun hlt => absurd hlt (Nat.lt_irrefl _)
    · simp [scanDead]
    · simp [scanDead]
  | k + 1, nidx => by
    by_cases hdead : t.sockfds nidx = INVALID_SOCKET
    · have hrest := scanDead_scanned t k (nidx + 1)
      rw [Nat.add_right_comm, Nat.add_assoc] at hrest
      have hle := hrest.le
      rw [scanDead, if_pos hdead]
      refine ⟨Nat.le_of_succ_le hle, hrest.bound, ?_, hrest.live, ?_, ?_⟩
      · intro i hi hlt
        by_cases heq : i = nidx
        · subst heq
          simp [Tables.entry, Entry.live, hdead]
        · exact hrest.dead i (by omega) hlt
      · show t.events nidx :: (scanDead t k (nidx + 1)).closed = _
        rw [hrest.closed]
        show _ = (List.range' nidx ((scanDead t k (nidx + 1)).nidx - nidx)).map t.events
        obtain ⟨m, hm⟩ := Nat.exists_eq_add_of_le hle
        have hall : nidx + 1 + m - nidx = m + 1 := by omega
        rw [hm, hall, Nat.add_sub_cancel_left, List.range'_succ]
        rfl
      · intro i hi
        rcases List.mem_cons.mp hi with rfl | hi
        · omega
        · exact hrest.used i hi
    · rw [scanDead, if_neg hdead]
      refine ⟨Nat.le_refl _, by simp, ?_, ?_, ?_, ?_⟩
      · intro i hle hlt
        exact absurd hlt (Nat.not_lt.mpr hle)
      · intro _
        simp [Tables.entry, Entry.live, hdead]
      · simp
      · intro i hi
        rw [List.mem_singleton.mp hi]
        omega

/-- How far the loop has looked. -/
def Compaction.seen (c : Compaction) : Nat := c.nidx.getD c.lidx

/-- The invariant of the loop. -/
structure Compacting (t₀ : Tables) (nrEvents : Nat) (c : Compaction) : Prop where
  bound : c.seen ≤ nrEvents
  packed : Packed Entry.live t₀.entry c.seen c.tables.entry c.lidx
  closed :
    c.closed = ((firsts t₀.entry c.seen).filter fun e => !e.live).map Entry.event
  used : ∀ i ∈ c.used, i < nrEvents

theorem compacting_start (t : Tables) (nrEvents : Nat) : Compacting t nrEvents (.start t) where
  bound := Nat.zero_le _
  packed := packed_zero _ _
  closed := rfl
  used := fun i hi => by cases hi

theorem Compacting.lidx_le (h : Compacting t₀ nrEvents c) : c.lidx ≤ nrEvents :=
  Nat.le_trans h.packed.le h.bound

/-- The loop has looked at everything. -/
theorem Compacting.done (h : Compacting t₀ nrEvents c) (hall : c.seen = nrEvents) :
    Compacted t₀ nrEvents c := by
  obtain ⟨-, hpacked, hclosed, hused⟩ := h
  rw [hall] at hpacked hclosed
  exact ⟨hpacked.front, hpacked.count, hclosed, hused⟩

/-- What the inner loop makes of the invariant. -/
theorem Compacting.scanned {nidx : Nat} {s : Scan} (h : Compacting t₀ nrEvents c)
    (hnidx : c.nidx = some nidx) (hs : Scanned c.tables nrEvents nidx s) :
    Compacting t₀ nrEvents
      { c with
        nidx := some s.nidx
        closed := c.closed ++ s.closed
        used := c.used ++ s.used } := by
  have hseen : c.seen = nidx := by simp [Compaction.seen, hnidx]
  obtain ⟨hbound, hpacked, hclosed, hused⟩ := h
  rw [hseen] at hbound hpacked hclosed
  have hdead : ∀ i, nidx ≤ i → i < s.nidx → (t₀.entry i).live = false := by
    intro i hi hlt
    rw [← hpacked.rest i hi]
    exact hs.dead i hi hlt
  have hevents :
      s.closed = ((List.range' nidx (s.nidx - nidx)).map t₀.entry).map Entry.event := by
    rw [hs.closed, List.map_map]
    refine List.map_congr_left fun i hi => ?_
    have hrest := hpacked.rest i (List.mem_range'_1.mp hi).1
    exact congrArg Entry.event hrest
  refine ⟨hs.bound, hpacked.skip_all hs.le hdead, ?_, ?_⟩
  · show c.closed ++ s.closed = _
    rw [hclosed, hevents, ← List.map_append, ← filter_skip_all hs.le hdead]
    rfl
  · exact List.forall_mem_append.mpr ⟨hused, hs.used⟩

/-- A live entry, as long as there has been no dead one. -/
theorem Compacting.keep (h : Compacting t₀ nrEvents c) (hnidx : c.nidx = none)
    (hin : c.lidx < nrEvents) (hlive : (c.tables.entry c.lidx).live = true) :
    Compacting t₀ nrEvents { c with lidx := c.lidx + 1, used := c.used ++ [c.lidx] } := by
  have hseen : c.seen = c.lidx := by simp [Compaction.seen, hnidx]
  have hnext : Compaction.seen { c with lidx := c.lidx + 1, used := c.used ++ [c.lidx] } =
      c.lidx + 1 := by
    simp [Compaction.seen, hnidx]
  obtain ⟨-, hpacked, hclosed, hused⟩ := h
  rw [hseen] at hpacked hclosed
  rw [hpacked.rest c.lidx (Nat.le_refl _)] at hlive
  constructor
  · rw [hnext]
    exact hin
  · rw [hnext]
    exact hpacked.keep hlive
  · rw [hnext, filter_keep hlive]
    exact hclosed
  · exact List.forall_mem_append.mpr ⟨hused, List.forall_mem_singleton.mpr hin⟩

/-- A live entry behind dead ones. -/
theorem Compacting.move {nidx : Nat} (h : Compacting t₀ nrEvents c) (hnidx : c.nidx = some nidx)
    (hin : c.lidx < nrEvents) (hlt : nidx < nrEvents)
    (hlive : (c.tables.entry nidx).live = true) :
    Compacting t₀ nrEvents
      { c with
        tables := c.tables.put c.lidx (c.tables.entry nidx)
        lidx := c.lidx + 1
        nidx := some (nidx + 1)
        used := c.used ++ [c.lidx, nidx] } := by
  have hseen : c.seen = nidx := by simp [Compaction.seen, hnidx]
  obtain ⟨-, hpacked, hclosed, hused⟩ := h
  rw [hseen] at hpacked hclosed
  rw [hpacked.rest nidx (Nat.le_refl _)] at hlive
  refine ⟨hlt, ?_, ?_, ?_⟩
  · show Packed _ _ (nidx + 1) (c.tables.put c.lidx (c.tables.entry nidx)).entry _
    rw [Tables.put_entry]
    exact hpacked.move hlive
  · show _ = ((firsts t₀.entry (nidx + 1)).filter fun e => !e.live).map Entry.event
    rw [filter_keep hlive]
    exact hclosed
  · refine List.forall_mem_append.mpr ⟨hused, fun i hi => ?_⟩
    rcases List.mem_pair.mp hi with rfl | rfl
    · exact hin
    · exact hlt

/-- The first dead entry. It is closed by the pass that follows. -/
theorem Compacting.found (h : Compacting t₀ nrEvents c) (hnidx : c.nidx = none)
    (hin : c.lidx < nrEvents) :
    Compacting t₀ nrEvents { c with nidx := some c.lidx, used := c.used ++ [c.lidx] } := by
  have hseen : c.seen = c.lidx := by simp [Compaction.seen, hnidx]
  have hle := h.lidx_le
  obtain ⟨-, hpacked, hclosed, hused⟩ := h
  rw [hseen] at hpacked hclosed
  have hall := List.forall_mem_append.mpr ⟨hused, List.forall_mem_singleton.mpr hin⟩
  exact ⟨hle, hpacked, hclosed, hall⟩

/-- Passes that are still to come, at most. -/
def Compaction.left (nrEvents : Nat) (c : Compaction) : Nat :=
  match c.nidx with
  | none => 2 * (nrEvents - c.lidx) + 1
  | some _ => 2 * (nrEvents - c.lidx)

/-- One pass. -/
theorem compactPass_spec (h : Compacting t₀ nrEvents c) :
    (∀ c', compactPass nrEvents c = .again c' →
      Compacting t₀ nrEvents c' ∧ c'.left nrEvents < c.left nrEvents) ∧
      ∀ c', compactPass nrEvents c = .leave c' → Compacted t₀ nrEvents c' := by
  have hbound := h.bound
  unfold compactPass
  split
  case isFalse hout =>
    -- `lidx` never passes what has been seen
    have hle := h.packed.le
    exact Flow.at_leave (h.done (by omega))
  case isTrue hin =>
    split
    case h_1 hnidx =>
      dsimp only
      split
      case isTrue hdead =>
        refine Flow.at_again ⟨h.found hnidx hin, ?_⟩
        simp [Compaction.left, hnidx]
      case isFalse hlive =>
        refine Flow.at_again ⟨h.keep hnidx hin (decide_eq_true hlive), ?_⟩
        simp only [Compaction.left, hnidx]
        omega
    case h_2 nidx hnidx =>
      have hseen : c.seen = nidx := by simp [Compaction.seen, hnidx]
      rw [hseen] at hbound
      have hscan := scanDead_scanned c.tables (nrEvents - nidx) nidx
      rw [Nat.add_sub_cancel' hbound] at hscan
      have hnext := h.scanned hnidx hscan
      dsimp only
      split
      case isTrue hend => exact Flow.at_leave (hnext.done hend)
      case isFalse hmore =>
        have hlt := Nat.lt_of_le_of_ne hscan.bound hmore
        refine Flow.at_again ⟨hnext.move rfl hin hlt (hscan.live hlt), ?_⟩
        simp only [Compaction.left, hnidx]
        omega

/-- **The loop terminates, and packs the table.** -/
theorem compact_compacted (t : Tables) (nrEvents : Nat) {fuel : Nat}
    (hfuel : 2 * nrEvents + 1 < fuel) :
    ∃ c, compact fuel nrEvents t = some c ∧ Compacted t nrEvents c := by
  have hstart := compacting_start t nrEvents
  have hlen : (Compaction.start t).left nrEvents < (List.replicate fuel ()).length := by
    rw [List.length_replicate]
    exact hfuel
  obtain ⟨c, hc⟩ : ∃ c, passes (fun _ => compactPass nrEvents) (List.replicate fuel ()) (.start t) =
      .leave c :=
    passes_leaves (Compaction.left nrEvents) (fun _ _ c' h => (compactPass_spec h).1 c') hstart hlen
  have hleave : Compacted t nrEvents c :=
    (passes_rule (I := fun _ => True) (fun _ _ c' _ h hc' => ((compactPass_spec h).1 c' hc').1)
      (fun _ _ c' _ h => (compactPass_spec h).2 c') _ (fun _ _ => trivial) hstart).2 c hc
  exact ⟨c, by rw [compact, hc], hleave⟩

/-- There are no more entries than before. -/
theorem Compacted.le (h : Compacted t₀ nrEvents c) : c.lidx ≤ nrEvents := by
  rw [h.count]
  refine Nat.le_trans List.countP_le_length ?_
  simp [firsts]

end Nwchecker.Wsa
