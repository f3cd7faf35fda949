import Nwchecker.Connection.Segmentation
import Nwchecker.Process.Lifetimes

/-!
# Runs of the process

A run either has met no failure, and then nothing has been released but the listener at the very
end, or it has closed a connection, and then a released handler has been read and `conn_hdr` holds
a released connection. `run_cases` follows this along a run; the two theorems at the end say it
for lifetimes and for the registry.
-/

namespace Nwchecker

open Ring Machine Lifetime

/-- `recv` did not fail. -/
def WorldEvent.Alive : WorldEvent → Prop
  | .input _ a => a.Segment
  | _ => True

/-- No `recv` and no `send` of the run has failed for good. -/
structure NothingFailed (events : List WorldEvent) (w : World) : Prop where
  alive : ∀ ev ∈ events, ev.Alive
  soft : ∀ p ∈ w.peers, ∀ r ∈ p.session.sock.sends, r.Soft

/-! ## One event -/

/-- What one event can do. -/
inductive WorldMove (w : World) (ev : WorldEvent) (w' : World) : Prop where
  | accept (newfd add : Int) (recvBuff : RecvBuffer) (stale : UInt32) (hm : w.mode = .server)
      (halive : ev.Alive) (h : w' = w.accept newfd add recvBuff stale)
  | turn (i : Nat) (p : Peer) (t : Turn) (hp : w.peers[i]? = some p)
      (ht : p.session.io.ioop = true → TurnPiece i ev.Alive p t) (h : w' = w.take i t)
  | stop (halive : ev.Alive) (h : w' = w.stop)

theorem worldStep_cases {w w' : World} {ev : WorldEvent} (h : worldStep w ev = some w') :
    w.status = .running ∧ WorldMove w ev w' := by
  unfold worldStep at h
  split at h
  · cases h
  · next hrun =>
    refine ⟨by simpa using hrun, ?_⟩
    cases ev with
    | accept newfd add recvBuff stale =>
      dsimp only at h
      split at h
      · next hm => exact .accept newfd add recvBuff stale hm trivial (Option.some.inj h).symm
      · cases h
    | input i a =>
      dsimp only at h
      split at h
      · next p hp =>
        split at h
        · exact .turn i p _ hp (fun hio => inputTurn_piece i hio a) (Option.some.inj h).symm
        · cases h
      · cases h
    | output i soError envs =>
      dsimp only at h
      split at h
      · next p hp =>
        split at h
        · exact .turn i p _ hp (fun _ => outputTurn_piece i p soError envs) (Option.some.inj h).symm
        · cases h
      · cases h
    | tick i envs =>
      dsimp only at h
      split at h
      · next p hp =>
        split at h
        · exact .turn i p _ hp (fun _ => tickTurn_piece i p envs) (Option.some.inj h).symm
        · cases h
      · cases h
    | stat i now =>
      dsimp only at h
      split at h
      · next p hp =>
        split at h
        · exact .turn i p _ hp (fun _ => statTurn_piece i p now) (Option.some.inj h).symm
        · cases h
      · cases h
    | stop => exact .stop trivial (Option.some.inj h).symm

theorem TurnPiece.grows {i : Nat} {alive : Prop} {p : Peer} {t : Turn} (h : TurnPiece i alive p t) :
    Grows p.session t.peer.session := by
  cases h with
  | quiet _ h => exact h.softly.toGrows
  | failed h => exact h.grows
  | dead _ _ h => exact h

/-! ## All events -/

/-- The nodes of the first `n` connections. -/
def entries (n : Nat) : List Nat := (List.range n).map connEntry

/-- What holds whether something has failed or not: nobody takes a connection off `conn_hdr`. -/
structure Lawful (w : World) : Prop where
  ioop : ∀ p ∈ w.peers, p.session.io.ioop = true
  ring : w.mode = .server → IsRing w.links connHdr (entries w.peers.length)

theorem entries_succ (n : Nat) : entries (n + 1) = entries n ++ [connEntry n] := by
  simp [entries, List.range_succ]

theorem connEntry_not_mem (n : Nat) : connEntry n ∉ connHdr :: entries n := by
  simp [entries, connEntry, connHdr]

theorem Lawful.step {w w' : World} {ev : WorldEvent} (h : Lawful w)
    (hstep : worldStep w ev = some w') : Lawful w' := by
  obtain ⟨-, hmove⟩ := worldStep_cases hstep
  cases hmove with
  | accept newfd add recvBuff stale hm _ heq =>
    subst heq
    unfold World.accept
    dsimp only
    split
    · exact ⟨h.ioop, h.ring⟩
    · refine ⟨fun p hp => ?_, fun _ => ?_⟩
      · rcases List.mem_append.mp hp with hp | hp
        · exact h.ioop p hp
        · rw [List.mem_singleton.mp hp]
          rfl
      · rw [List.length_append, List.length_singleton, entries_succ]
        exact listAddTail_isRing (h.ring hm) (connEntry_not_mem _)
  | turn i p t hp ht heq =>
    subst heq
    have hio := h.ioop p (List.mem_of_getElem? hp)
    refine ⟨fun q hq => ?_, fun hm => ?_⟩
    · rcases List.mem_or_eq_of_mem_set hq with hq | rfl
      · exact h.ioop q hq
      · rw [(ht hio).grows.ioop, hio]
    · rw [World.take, List.length_set]
      exact h.ring hm
  | stop _ heq =>
    subst heq
    exact ⟨h.ioop, h.ring⟩

/-- Nothing has failed and nothing has been released, but for the listener at the very end. -/
structure Unharmed (events : List WorldEvent) (w : World) : Prop
    extends NothingFailed events w where
  safe : Safe w.log
  noRelease : w.status ≠ .stopped → NoRelease w.log
  conns : ∀ i, .release (.conn i) ∉ w.log

/-- Some connection has been closed because something failed. -/
structure Harmed (events : List WorldEvent) (w : World) : Prop where
  failed : ¬NothingFailed events w
  doomed : ∃ i < w.peers.length, Doomed i w.log

/-- A good run so far, with the log still open. -/
theorem unharmed_of_noRelease {events : List WorldEvent} {w : World} (h : NothingFailed events w)
    (hlog : NoRelease w.log) : Unharmed events w where
  toNothingFailed := h
  safe := List.Pairwise.imp_of_mem (fun {a _} ha _ _ he => hlog a ha _ he)
    (List.pairwise_of_forall fun _ _ => trivial)
  noRelease := fun _ => hlog
  conns := fun _ hi => hlog _ hi _ rfl

theorem ioCloseTrace_split (o : Obj) (state : NwcTcpState) :
    ∃ l, ioCloseTrace o state = l ++ [.release o] ∧ NoRelease l := by
  refine ⟨_, rfl, ?_⟩
  split <;> simp

section
variable {events : List WorldEvent} {ev : WorldEvent} {w w' : World}

theorem alive_concat : (∀ e ∈ events ++ [ev], e.Alive) ↔ (∀ e ∈ events, e.Alive) ∧ ev.Alive := by
  simp only [List.mem_append, List.mem_singleton]
  constructor
  · intro h
    exact ⟨fun e he => h e (Or.inl he), h ev (Or.inr rfl)⟩
  · rintro ⟨h, hev⟩ e (he | rfl)
    · exact h e he
    · exact hev

theorem Unharmed.log (h : Unharmed events w) (hrun : w.status = .running) : NoRelease w.log :=
  h.noRelease (by simp [hrun])

theorem Unharmed.accept (h : Unharmed events w) (hrun : w.status = .running) (hev : ev.Alive)
    (newfd add : Int) (recvBuff : RecvBuffer) (stale : UInt32) :
    Unharmed (events ++ [ev]) (w.accept newfd add recvBuff stale) := by
  have halive := alive_concat.mpr ⟨h.alive, hev⟩
  unfold World.accept
  dsimp only
  split
  · exact unharmed_of_noRelease ⟨halive, h.soft⟩ (by simp [h.log hrun])
  · refine unharmed_of_noRelease ⟨halive, ?_⟩ (by simp [h.log hrun])
    intro p hp r hr
    rcases List.mem_append.mp hp with hp | hp
    · exact h.soft p hp r hr
    · -- the new connection has not sent anything yet
      rw [List.mem_singleton.mp hp] at hr
      exact absurd hr List.not_mem_nil

/-- A turn keeps the run good, or it is the one that spoils it. -/
theorem Unharmed.turn (h : Unharmed events w) (hrun : w.status = .running) {i : Nat} {p : Peer}
    {t : Turn} (hp : w.peers[i]? = some p) (ht : TurnPiece i ev.Alive p t) :
    Unharmed (events ++ [ev]) (w.take i t) ∨ Harmed (events ++ [ev]) (w.take i t) := by
  have hmem : p ∈ w.peers := List.mem_of_getElem? hp
  obtain ⟨hi, -⟩ := List.getElem?_eq_some_iff.mp hp
  have hi' : i < (w.take i t).peers.length := by simpa [World.take] using hi
  have hnew : t.peer ∈ (w.take i t).peers := List.mem_set hi _
  cases ht with
  | quiet hev hq =>
    left
    refine unharmed_of_noRelease ⟨alive_concat.mpr ⟨h.alive, hev⟩, ?_⟩
      (noRelease_append.mpr ⟨h.log hrun, hq.noRelease⟩)
    intro q hq' r hr
    rcases List.mem_or_eq_of_mem_set hq' with hq' | rfl
    · exact h.soft q hq' r hr
    · rcases hq.softly.soft r hr with hr | hr
      · exact h.soft p hmem r hr
      · exact hr
  | failed hf =>
    right
    obtain ⟨r, hr, hnot⟩ := hf.failed
    exact ⟨fun hno => hnot (hno.soft _ hnew r hr), i, hi', hf.doomed.append_left _⟩
  | dead hdead hdoomed _ =>
    right
    exact ⟨fun hno => hdead (alive_concat.mp hno.alive).2, i, hi', hdoomed.append_left _⟩

theorem Unharmed.stop (h : Unharmed events w) (hrun : w.status = .running) (hev : ev.Alive) :
    Unharmed (events ++ [ev]) w.stop := by
  have hgood : NothingFailed (events ++ [ev]) w.stop :=
    ⟨alive_concat.mpr ⟨h.alive, hev⟩, h.soft⟩
  cases hm : w.mode with
  | client =>
    refine unharmed_of_noRelease hgood ?_
    simpa [World.stop, hm] using h.log hrun
  | server =>
    -- the release of the listener is the last thing that happens
    obtain ⟨l, hclose, hnone⟩ := ioCloseTrace_split .listener .listen
    have hlog : w.stop.log = (w.log ++ l) ++ [.release .listener] := by
      simp [World.stop, hm, hclose]
    have hall : NoRelease (w.log ++ l) := noRelease_append.mpr ⟨h.log hrun, hnone⟩
    refine ⟨hgood, ?_, fun hs => absurd rfl hs, ?_⟩
    · rw [hlog]
      exact safe_concat hall
    · intro i hi
      rw [hlog] at hi
      rcases List.mem_append.mp hi with hi | hi
      · exact hall _ hi _ rfl
      · simp at hi

/-- The run stays good, or this is the event that spoils it. -/
theorem Unharmed.step (h : Unharmed events w) (hl : Lawful w) (hstep : worldStep w ev = some w') :
    Unharmed (events ++ [ev]) w' ∨ Harmed (events ++ [ev]) w' := by
  obtain ⟨hrun, hmove⟩ := worldStep_cases hstep
  cases hmove with
  | accept newfd add recvBuff stale _ hev heq =>
    subst heq
    exact Or.inl (h.accept hrun hev newfd add recvBuff stale)
  | turn i p t hp ht heq =>
    subst heq
    exact h.turn hrun hp (ht (hl.ioop p (List.mem_of_getElem? hp)))
  | stop hev heq =>
    subst heq
    exact Or.inl (h.stop hrun hev)

/-- What is sent in a turn, or has been sent before, is still on record. -/
theorem soft_of_take {i : Nat} {p : Peer} {t : Turn} (hp : w.peers[i]? = some p)
    (hgrows : Grows p.session t.peer.session)
    (h : ∀ q ∈ (w.take i t).peers, ∀ r ∈ q.session.sock.sends, r.Soft) :
    ∀ q ∈ w.peers, ∀ r ∈ q.session.sock.sends, r.Soft := by
  obtain ⟨hi, -⟩ := List.getElem?_eq_some_iff.mp hp
  intro q hq r hr
  obtain ⟨k, hk⟩ := List.mem_iff_getElem?.mp hq
  by_cases hik : i = k
  · subst hik
    obtain rfl : p = q := Option.some.inj (hp.symm.trans hk)
    exact h t.peer (List.mem_set hi _) r (hgrows.sends.subset hr)
  · refine h q (List.mem_of_getElem? (i := k) ?_) r hr
    rw [World.take, List.getElem?_set_ne hik]
    exact hk

/-- What has failed stays failed, and what has been closed stays closed. -/
theorem Harmed.step (h : Harmed events w) (hl : Lawful w) (hstep : worldStep w ev = some w') :
    Harmed (events ++ [ev]) w' := by
  obtain ⟨-, hmove⟩ := worldStep_cases hstep
  obtain ⟨j, hj, hdoomed⟩ := h.doomed
  have hpast {v : World} (hno : NothingFailed (events ++ [ev]) v)
      (hsoft : ∀ p ∈ w.peers, ∀ r ∈ p.session.sock.sends, r.Soft) : False :=
    h.failed ⟨(alive_concat.mp hno.alive).1, hsoft⟩
  cases hmove with
  | accept newfd add recvBuff stale _ _ heq =>
    subst heq
    unfold World.accept
    dsimp only
    split
    · exact ⟨fun hno => hpast hno hno.soft, j, hj, hdoomed.append_right _⟩
    · refine ⟨fun hno => ?_, j, ?_, hdoomed.append_right _⟩
      · exact hpast hno fun p hp => hno.soft p (List.mem_append_left _ hp)
      · rw [List.length_append]
        omega
  | turn i p t hp ht heq =>
    subst heq
    have hgrows := (ht (hl.ioop p (List.mem_of_getElem? hp))).grows
    refine ⟨fun hno => hpast hno (soft_of_take hp hgrows hno.soft), j, ?_,
      hdoomed.append_right _⟩
    simpa [World.take] using hj
  | stop _ heq =>
    subst heq
    refine ⟨fun hno => hpast hno hno.soft, j, hj, ?_⟩
    unfold World.stop
    cases w.mode with
    | client => exact hdoomed
    | server => exact hdoomed.append_right _

end

theorem Starts.lawful {w : World} (h : Starts w) : Lawful w := by
  cases h with
  | server bandwidth links =>
    exact ⟨fun p hp => absurd hp List.not_mem_nil, fun _ => initListHead_isRing links connHdr⟩
  | client bandwidth recvBuff stale rc fd add links =>
    refine ⟨fun p hp => ?_, fun hm => by cases hm⟩
    rw [List.mem_singleton.mp hp]
    show (nwcTcpHandlerConnect (nwcTcpHandlerInit true) rc fd add 0).2.ioop = true
    unfold nwcTcpHandlerConnect
    dsimp only
    split
    · rfl
    · split <;> rfl

theorem Starts.unharmed {w : World} (h : Starts w) : Unharmed [] w := by
  cases h with
  | server bandwidth links =>
    refine unharmed_of_noRelease ⟨fun e he => absurd he List.not_mem_nil,
      fun p hp => absurd hp List.not_mem_nil⟩ ?_
    simp [World.server]
  | client bandwidth recvBuff stale rc fd add links =>
    refine unharmed_of_noRelease ⟨fun e he => absurd he List.not_mem_nil, fun p hp r hr => ?_⟩ ?_
    · rw [List.mem_singleton.mp hp] at hr
      exact absurd hr List.not_mem_nil
    · simp only [World.client, noRelease_append, connInitTrace_noRelease, ioCreateTrace_noRelease,
        noRelease_read, noRelease_write, noRelease_nil, true_and]
      refine ⟨?_, ?_⟩
      · split <;> simp
      · split <;> simp

/-- **A run either meets no failure and does no harm, or it has closed a connection.** -/
theorem run_cases {w₀ : World} (h₀ : Starts w₀) : ∀ {events : List WorldEvent} {w : World},
    replay worldStep w₀ events = some w →
    Lawful w ∧ (Unharmed events w ∨ Harmed events w) := by
  intro events
  induction events using List.reverseRecOn with
  | nil =>
    intro w hrun
    cases hrun
    exact ⟨h₀.lawful, Or.inl h₀.unharmed⟩
  | append_singleton events ev ih =>
    intro w hrun
    obtain ⟨v, hv, hstep⟩ := replay_concat.mp hrun
    obtain ⟨hl, hcase⟩ := ih hv
    refine ⟨hl.step hstep, ?_⟩
    rcases hcase with hgood | hbad
    · exact hgood.step hl hstep
    · exact Or.inr (hbad.step hl hstep)

theorem run_mode {w₀ w : World} {events : List WorldEvent}
    (hrun : replay worldStep w₀ events = some w) : w.mode = w₀.mode := by
  refine replay_invariant (P := fun w => w.mode = w₀.mode) (I := fun _ => True)
    (fun w ev w' _ hm hstep => ?_) (fun _ _ => trivial) rfl hrun
  rw [← hm]
  cases (worldStep_cases hstep).2 with
  | accept newfd add recvBuff stale _ _ heq =>
    subst heq
    unfold World.accept
    dsimp only
    split <;> rfl
  | turn i p t _ _ heq =>
    subst heq
    rfl
  | stop _ heq =>
    subst heq
    rfl

/-- A server whose memory was zero. -/
def World.sample : World := World.server 0 { next := fun _ => 0, prev := fun _ => 0 }

/-- A client connects, and `recv` on its connection gives `data`. -/
def oneConnection (data : List UInt8) : List WorldEvent :=
  [.accept 7 0 RecvBuffer.zero 0, .input 0 (Arrival.sample data)]

/-- One request is answered. -/
theorem oneRequest_nothingFailed : ∃ w,
    replay worldStep World.sample (oneConnection (List.replicate 16 0)) = some w ∧
      NothingFailed (oneConnection (List.replicate 16 0)) w := by
  obtain ⟨w, hw⟩ := Option.isSome_iff_exists.mp
    (show (replay worldStep World.sample (oneConnection (List.replicate 16 0))).isSome by
      decide +kernel)
  have hview : (replay worldStep World.sample (oneConnection (List.replicate 16 0))).map
      (fun w => decide (∀ p ∈ w.peers, ∀ r ∈ p.session.sock.sends, r.Soft)) = some true := by
    decide +kernel
  rw [hw] at hview
  refine ⟨w, hw, fun ev hev => ?_, of_decide_eq_true (Option.some.inj hview)⟩
  have hcases : ev = .accept 7 0 RecvBuffer.zero 0 ∨
      ev = .input 0 (Arrival.sample (List.replicate 16 0)) := by
    simpa [oneConnection] using hev
  rcases hcases with rfl | rfl
  · trivial
  · show (Arrival.sample (List.replicate 16 0)).Segment
    decide

/-- The client hangs up at once, and the server closes the connection. -/
theorem hangUp_harmed : ∃ w,
    replay worldStep World.sample (oneConnection []) = some w ∧ Lawful w ∧
      Harmed (oneConnection []) w := by
  obtain ⟨w, hw⟩ := Option.isSome_iff_exists.mp
    (show (replay worldStep World.sample (oneConnection [])).isSome by decide +kernel)
  obtain ⟨hl, hcase⟩ := run_cases (.server _ _) hw
  refine ⟨w, hw, hl, ?_⟩
  rcases hcase with hgood | hbad
  · have hdead : (Arrival.sample []).Segment :=
      hgood.alive (.input 0 (Arrival.sample [])) (by simp [oneConnection])
    exact absurd hdead (by decide)
  · exact hbad

/-! ## Lifetimes -/

/--
**When nothing is used after its release.**

In every run of the client or the server: exactly as long as no `recv` meets an error or the end
of the stream and no `send` fails for good. Every such failure leads to `nwc_connection_close`,
which reads the handler it has just released.
-/
theorem noUseAfterRelease_iff (w₀ : World) (h₀ : Starts w₀) (events : List WorldEvent) (w : World)
    (hrun : replay worldStep w₀ events = some w) : Safe w.log ↔ NothingFailed events w := by
  obtain ⟨-, hgood | hbad⟩ := run_cases h₀ hrun
  · exact ⟨fun _ => hgood.toNothingFailed, fun _ => hgood.safe⟩
  · obtain ⟨i, -, hdoomed⟩ := hbad.doomed
    have hunsafe : ¬Safe w.log := not_safe_of_sublist (o := .io i) rfl hdoomed.used
    exact ⟨fun hs => absurd hs hunsafe, fun hno => absurd hno hbad.failed⟩

theorem oneRequest_safe : ∃ w,
    replay worldStep World.sample (oneConnection (List.replicate 16 0)) = some w ∧
      Safe w.log := by
  obtain ⟨w, hw, hno⟩ := oneRequest_nothingFailed
  exact ⟨w, hw, (noUseAfterRelease_iff World.sample (.server _ _) _ w hw).mpr hno⟩

theorem hangUp_not_safe : ∃ w,
    replay worldStep World.sample (oneConnection []) = some w ∧ ¬Safe w.log := by
  obtain ⟨w, hw, -, hbad⟩ := hangUp_harmed
  obtain ⟨i, -, hdoomed⟩ := hbad.doomed
  exact ⟨w, hw, not_safe_of_sublist (o := .io i) rfl hdoomed.used⟩

/-! ## The registry -/

/--
`conn_hdr` is a well-formed ring, and its members are the connections that have been accepted and
not closed, each once.
-/
def RegistryExact (w : World) : Prop :=
  ∃ members : List Nat, IsRing w.links connHdr (members.map connEntry) ∧
    ∀ i, i ∈ members ↔ i < w.peers.length ∧ .release (.conn i) ∉ w.log

/-- A connection that has been closed is still a member. -/
theorem Harmed.not_registryExact {events : List WorldEvent} {w : World} (h : Harmed events w)
    (hring : IsRing w.links connHdr (entries w.peers.length)) : ¬RegistryExact w := by
  rintro ⟨members, hring', hmem⟩
  obtain ⟨i, hi, hdoomed⟩ := h.doomed
  have hsame : members.map connEntry = entries w.peers.length := hring'.unique hring
  have hin : connEntry i ∈ members.map connEntry := by
    rw [hsame]
    exact List.mem_map_of_mem (List.mem_range.mpr hi)
  obtain ⟨j, hj, hij⟩ := List.mem_map.mp hin
  obtain rfl : j = i := Nat.succ.inj hij
  exact ((hmem j).mp hj).2 hdoomed.conn

/--
**When the registry is exact.**

After every run of the server: exactly as long as no connection has been closed, that is as long
as no `recv` meets an error or the end of the stream and no `send` fails for good.
`nwc_connection_close` does not call `remove_nwc`.
-/
theorem registryExact_iff (bandwidth : Int) (links : Links Nat) (events : List WorldEvent)
    (w : World) (hrun : replay worldStep (World.server bandwidth links) events = some w) :
    RegistryExact w ↔ NothingFailed events w := by
  obtain ⟨hl, hcase⟩ := run_cases (.server bandwidth links) hrun
  have hring := hl.ring (run_mode hrun)
  rcases hcase with hgood | hbad
  · refine ⟨fun _ => hgood.toNothingFailed,
      fun _ => ⟨List.range w.peers.length, hring, fun i => ?_⟩⟩
    rw [List.mem_range]
    exact ⟨fun hi => ⟨hi, hgood.conns i⟩, fun h => h.1⟩
  · exact ⟨fun hexact => absurd hexact (hbad.not_registryExact hring),
      fun hno => absurd hno hbad.failed⟩

theorem oneRequest_registryExact : ∃ w,
    replay worldStep World.sample (oneConnection (List.replicate 16 0)) = some w ∧
      RegistryExact w := by
  obtain ⟨w, hw, hno⟩ := oneRequest_nothingFailed
  exact ⟨w, hw, (registryExact_iff _ _ _ w hw).mpr hno⟩

theorem hangUp_not_registryExact : ∃ w,
    replay worldStep World.sample (oneConnection []) = some w ∧ ¬RegistryExact w := by
  obtain ⟨w, hw, hl, hbad⟩ := hangUp_harmed
  exact ⟨w, hw, hbad.not_registryExact (hl.ring (run_mode hw))⟩

end Nwchecker
