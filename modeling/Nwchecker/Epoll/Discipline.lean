import Nwchecker.Epoll.Looper

/-!
# The looper keeps to the discipline

The log of every run of `nwc_epoll_run` is accepted by the automaton of `Deferred`: no callback
goes through a removed entry, a batch finds every entry that was reported in it, and each
removed entry is released once, by the next clean-up.
-/

namespace Nwchecker

open Machine Deferred

/-! ## The looper and the automaton -/

/-- The looper and the automaton that has read its log. -/
structure Obeys (s : NwcEpollLooper) (d : State EntryRef) : Prop where
  accepted : replay step init s.log = some d
  numbered : ∀ handle eh, (handle, eh) ∈ d.added → ∃ n, eh = some n ∧ n < s.handlers
  live : ∀ handle e, s.entries handle = some e → handle ∉ s.removedEpollEntrys →
    d.Live (handle, some e.eh)
  interest : ∀ handle ∈ s.interest,
    (∃ e, s.entries handle = some e) ∧ handle ∉ s.removedEpollEntrys
  waiting : d.waiting = s.removedEpollEntrys.map s.ref
  removed : ∀ handle ∈ s.removedEpollEntrys, ∃ e, s.entries handle = some e ∧ e.armed = false
  nodup : s.removedEpollEntrys.Nodup

/-- What callbacks and workers leave as it is: nothing is released, and the list only grows. -/
structure Kept (s t : NwcEpollLooper) : Prop where
  entries : ∀ handle e, s.entries handle = some e → ∃ e', t.entries handle = some e' ∧ e'.eh = e.eh
  removed : s.removedEpollEntrys <+: t.removedEpollEntrys
  log : ∃ mid, t.log = s.log ++ mid ∧ .done ∉ mid ∧ ∀ x, .release x ∉ mid

theorem Kept.refl (s : NwcEpollLooper) : Kept s s where
  entries := fun _ e h => ⟨e, h, rfl⟩
  removed := List.prefix_rfl
  log := ⟨[], by simp, by simp, by simp⟩

theorem Kept.trans {s t u : NwcEpollLooper} (h : Kept s t) (h' : Kept t u) : Kept s u where
  entries := by
    intro handle e he
    obtain ⟨e', he', heq⟩ := h.entries handle e he
    obtain ⟨e'', he'', heq'⟩ := h'.entries handle e' he'
    exact ⟨e'', he'', heq'.trans heq⟩
  removed := h.removed.trans h'.removed
  log := by
    obtain ⟨mid, hmid, hdone, hrel⟩ := h.log
    obtain ⟨mid', hmid', hdone', hrel'⟩ := h'.log
    refine ⟨mid ++ mid', by simp [hmid, hmid'], by simp [hdone, hdone'], ?_⟩
    intro x
    simp [hrel x, hrel' x]

theorem nwcEpollStart_obeys : Obeys nwcEpollStart init where
  accepted := rfl
  numbered := by simp [init]
  live := by simp [nwcEpollStart]
  interest := by simp [nwcEpollStart]
  waiting := rfl
  removed := by simp [nwcEpollStart]
  nodup := List.nodup_nil

/-! ## What the updates do to the memory -/

section
variable (s : NwcEpollLooper) (handle x : Nat)

theorem store_entries (e : Option EpollEntry) :
    (s.store handle e).entries x = if x = handle then e else s.entries x := by
  simp [NwcEpollLooper.store, Function.update_apply]

theorem attach_entries (e : EpollEntry) :
    (s.attach handle e).entries x = if x = handle then some e else s.entries x :=
  store_entries s handle x e

theorem detach_entries (e : EpollEntry) : (s.detach handle e).entries x
    = if x = handle then some (nwcEpollRemoveHandler e) else s.entries x :=
  store_entries s handle x _

theorem release_entries (rest : List Nat) :
    (s.release handle rest).entries x = if x = handle then none else s.entries x :=
  store_entries s handle x none

end

variable {s : NwcEpollLooper} {d : State EntryRef} {handle : Nat} {e : EpollEntry}

/-- A change in place that keeps the handler does not show in the references. -/
theorem store_ref {e' : EpollEntry} (he : s.entries handle = some e) (heh : e'.eh = e.eh) :
    (s.store handle e').ref = s.ref := by
  funext x
  unfold NwcEpollLooper.ref
  rw [store_entries]
  split
  · next hx => simp [hx, he, heh]
  · rfl

theorem detach_ref (he : s.entries handle = some e) : (s.detach handle e).ref = s.ref :=
  store_ref he (show (nwcEpollRemoveHandler e).eh = e.eh from rfl)

/-! ## Changes in place -/

theorem Obeys.store {e' : EpollEntry} (h : Obeys s d) (he : s.entries handle = some e)
    (heh : e'.eh = e.eh) (harmed : e'.armed = e.armed) : Obeys (s.store handle e') d where
  accepted := h.accepted
  numbered := h.numbered
  live := by
    intro x f hf hx
    rw [store_entries] at hf
    split at hf
    · next hxh =>
      cases hf
      rw [hxh, heh]
      exact h.live handle e he (by rwa [hxh] at hx)
    · exact h.live x f hf hx
  interest := by
    intro x hx
    obtain ⟨⟨f, hf⟩, hnot⟩ := h.interest x hx
    refine ⟨?_, hnot⟩
    rw [store_entries]
    split
    · exact ⟨e', rfl⟩
    · exact ⟨f, hf⟩
  waiting := by
    rw [store_ref he heh]
    exact h.waiting
  removed := by
    intro x hx
    obtain ⟨f, hf, ha⟩ := h.removed x hx
    rw [store_entries]
    split
    · next hxh =>
      rw [hxh, he] at hf
      cases hf
      exact ⟨e', rfl, by rw [harmed, ha]⟩
    · exact ⟨f, hf, ha⟩
  nodup := h.nodup

theorem Kept.store {e' : EpollEntry} (he : s.entries handle = some e) (heh : e'.eh = e.eh) :
    Kept s (s.store handle e') where
  entries := by
    intro x f hf
    rw [store_entries]
    split
    · next hxh =>
      rw [hxh, he] at hf
      cases hf
      exact ⟨e', rfl, heh⟩
    · exact ⟨f, hf, rfl⟩
  removed := List.prefix_rfl
  log := ⟨[], by simp [NwcEpollLooper.store], by simp, by simp⟩

/-- An event that is no addition, removal or release only goes to the log. -/
theorem Obeys.note {phase : Phase EntryRef} {ev : Ev EntryRef} (h : Obeys s d)
    (hev : step d ev = some { d with phase := phase }) :
    Obeys (s.note ev) { d with phase := phase } where
  accepted := replay_concat.mpr ⟨d, h.accepted, hev⟩
  numbered := h.numbered
  live := h.live
  interest := h.interest
  waiting := h.waiting
  removed := h.removed
  nodup := h.nodup

/-- `nwc_epoll_stop`, and the return of `nwc_epoll_run`. -/
theorem Obeys.flags (h : Obeys s d) (exit failed : Bool) :
    Obeys { s with exit := exit, failed := failed } d :=
  ⟨h.accepted, h.numbered, h.live, h.interest, h.waiting, h.removed, h.nodup⟩

theorem Kept.note {ev : Ev EntryRef} (hdone : ev ≠ .done) (hrel : ∀ x, ev ≠ .release x) :
    Kept s (s.note ev) where
  entries := fun _ f hf => ⟨f, hf, rfl⟩
  removed := List.prefix_rfl
  log := ⟨[ev], rfl, by simp [hdone.symm], fun x => by simp [(hrel x).symm]⟩

/-! ## New entries -/

theorem Obeys.attach (h : Obeys s d) (hp : d.phase ≠ .cleaning) (hnone : s.entries handle = none)
    (heh : e.eh = s.handlers) :
    Obeys (s.attach handle e) { d with added := (handle, some s.handlers) :: d.added } := by
  -- the address is not in use, and the number is new
  have hne : ∀ x f, s.entries x = some f → x ≠ handle := by
    rintro x f hf rfl
    rw [hnone] at hf
    cases hf
  have hnew : (handle, some s.handlers) ∉ d.added := by
    intro hmem
    obtain ⟨n, hn, hlt⟩ := h.numbered handle _ hmem
    cases hn
    exact absurd hlt (Nat.lt_irrefl _)
  have hkeep : ∀ x f, s.entries x = some f → (s.attach handle e).entries x = some f := by
    intro x f hf
    rw [attach_entries, if_neg (hne x f hf), hf]
  constructor
  case accepted => exact replay_concat.mpr ⟨d, h.accepted, step_add.mpr ⟨⟨hnew, hp⟩, rfl⟩⟩
  case numbered =>
    intro x eh hx
    rcases List.mem_cons.mp hx with hx | hx
    · cases hx
      exact ⟨s.handlers, rfl, Nat.lt_succ_self _⟩
    · obtain ⟨n, hn, hlt⟩ := h.numbered x eh hx
      exact ⟨n, hn, Nat.lt_succ_of_lt hlt⟩
  case live =>
    intro x f hf hx
    rw [attach_entries] at hf
    split at hf
    · next hxh =>
      cases hf
      rw [hxh, heh]
      exact ⟨List.mem_cons_self, fun hgone => hnew (removed_added h.accepted hgone)⟩
    · obtain ⟨hadded, hremoved⟩ := h.live x f hf hx
      exact ⟨List.mem_cons_of_mem _ hadded, hremoved⟩
  case interest =>
    intro x hx
    rcases List.mem_cons.mp hx with rfl | hx
    · refine ⟨⟨e, by rw [attach_entries, if_pos rfl]⟩, fun hmem => ?_⟩
      obtain ⟨f, hf, -⟩ := h.removed _ hmem
      exact hne _ f hf rfl
    · obtain ⟨⟨f, hf⟩, hnot⟩ := h.interest x hx
      exact ⟨⟨f, hkeep x f hf⟩, hnot⟩
  case waiting =>
    refine h.waiting.trans (List.map_congr_left fun x hx => ?_)
    obtain ⟨f, hf, -⟩ := h.removed x hx
    simp [NwcEpollLooper.ref, hf, hkeep x f hf]
  case removed =>
    intro x hx
    obtain ⟨f, hf, ha⟩ := h.removed x hx
    exact ⟨f, hkeep x f hf, ha⟩
  case nodup => exact h.nodup

theorem Kept.attach (hnone : s.entries handle = none) : Kept s (s.attach handle e) where
  entries := by
    intro x f hf
    rw [attach_entries]
    split
    · next hxh =>
      rw [hxh, hnone] at hf
      cases hf
    · exact ⟨f, hf, rfl⟩
  removed := List.prefix_rfl
  log := ⟨[.add (handle, some s.handlers)], rfl, by simp, by simp⟩

/-! ## Removals -/

/-- The entry keeps its place in memory until the clean-up. -/
theorem Obeys.detach (h : Obeys s d) (hp : d.phase ≠ .cleaning) (he : s.entries handle = some e)
    (hnot : handle ∉ s.removedEpollEntrys) :
    Obeys (s.detach handle e)
      { d with removed := s.ref handle :: d.removed, waiting := d.waiting ++ [s.ref handle] } := by
  have hlive : d.Live (s.ref handle) := by
    simpa [NwcEpollLooper.ref, he] using h.live handle e he hnot
  constructor
  case accepted => exact replay_concat.mpr ⟨d, h.accepted, step_remove.mpr ⟨⟨hlive, hp⟩, rfl⟩⟩
  case numbered => exact h.numbered
  case live =>
    intro x f hf hx
    have hx' : x ∉ s.removedEpollEntrys ∧ x ≠ handle := by
      simpa [NwcEpollLooper.detach, NwcEpollLooper.note] using hx
    rw [detach_entries, if_neg hx'.2] at hf
    obtain ⟨hadded, hremoved⟩ := h.live x f hf hx'.1
    refine ⟨hadded, ?_⟩
    simp [hremoved, NwcEpollLooper.ref, hx'.2]
  case interest =>
    intro x hx
    have hx' : x ∈ s.interest ∧ x ≠ handle := by
      simpa [NwcEpollLooper.detach, NwcEpollLooper.note] using hx
    obtain ⟨⟨f, hf⟩, hnot'⟩ := h.interest x hx'.1
    refine ⟨⟨f, by rw [detach_entries, if_neg hx'.2, hf]⟩, ?_⟩
    simp [NwcEpollLooper.detach, NwcEpollLooper.note, hnot', hx'.2]
  case waiting =>
    show d.waiting ++ [s.ref handle] = (s.removedEpollEntrys ++ [handle]).map _
    rw [h.waiting, detach_ref he, List.map_append, List.map_singleton]
  case removed =>
    intro x hx
    rw [detach_entries]
    rcases List.mem_append.mp hx with hold | hlast
    · obtain ⟨f, hf, ha⟩ := h.removed x hold
      have hxh : x ≠ handle := by
        rintro rfl
        exact hnot hold
      rw [if_neg hxh]
      exact ⟨f, hf, ha⟩
    · rw [if_pos (List.mem_singleton.mp hlast)]
      exact ⟨_, rfl, nwcEpollRemoveHandler_armed e⟩
  case nodup =>
    show (s.removedEpollEntrys ++ [handle]).Nodup
    rw [List.nodup_append]
    refine ⟨h.nodup, by simp, ?_⟩
    rintro a ha b hb rfl
    exact hnot (List.mem_singleton.mp hb ▸ ha)

theorem Kept.detach (he : s.entries handle = some e) : Kept s (s.detach handle e) where
  entries := by
    intro x f hf
    rw [detach_entries]
    split
    · next hxh =>
      rw [hxh, he] at hf
      cases hf
      exact ⟨_, rfl, rfl⟩
    · exact ⟨f, hf, rfl⟩
  removed := List.prefix_append _ _
  log := ⟨[.remove (s.ref handle)], rfl, by simp, by simp⟩

/-! ## Calls -/

/-- What a call can do to the looper. -/
inductive OpMove (s : NwcEpollLooper) : NwcEpollLooper → Prop where
  | none : OpMove s s
  | attach (handle : Nat) (e : EpollEntry) (hnone : s.entries handle = none)
      (heh : e.eh = s.handlers) : OpMove s (s.attach handle e)
  | detach (handle : Nat) (e : EpollEntry) (he : s.entries handle = some e)
      (hnot : handle ∉ s.removedEpollEntrys) : OpMove s (s.detach handle e)
  | store (handle : Nat) (e e' : EpollEntry) (he : s.entries handle = some e) (heh : e'.eh = e.eh)
      (harmed : e'.armed = e.armed) : OpMove s (s.store handle e')
  | stop : OpMove s { s with exit := true }

theorem looperOp_cases {t : NwcEpollLooper} {op : LooperOp} (hop : looperOp s op = some t) :
    OpMove s t := by
  cases op with
  | addHandler malloc fd ctl =>
    cases malloc with
    | none =>
      cases hop
      exact .none
    | some handle =>
      simp only [looperOp] at hop
      split at hop
      · next hnone =>
        by_cases hctl : ctl = 0
        · simp only [nwcEpollAddHandler, hctl, if_true, Option.some.injEq] at hop
          subst hop
          exact .attach handle _ hnone rfl
        · simp only [nwcEpollAddHandler, hctl, if_false, Option.some.injEq] at hop
          subst hop
          exact .none
      · cases hop
  | removeHandler handle =>
    simp only [looperOp] at hop
    split at hop
    · next e he =>
      split at hop
      · cases hop
      · next hnot =>
        cases hop
        exact .detach handle e he hnot
    · cases hop
  | registerEvent handle events =>
    simp only [looperOp] at hop
    split at hop
    · next e he =>
      cases hop
      exact .store handle e _ he rfl rfl
    · cases hop
  | cancelEvent handle events =>
    simp only [looperOp] at hop
    split at hop
    · next e he =>
      cases hop
      exact .store handle e _ he rfl rfl
    · cases hop
  | stop =>
    cases hop
    exact .stop

/-- The step lemma of the calls: outside the clean-up every call keeps the discipline. -/
theorem Obeys.op {t : NwcEpollLooper} (h : Obeys s d) (hp : d.phase ≠ .cleaning) {op : LooperOp}
    (hop : looperOp s op = some t) : (∃ d', Obeys t d' ∧ d'.phase = d.phase) ∧ Kept s t := by
  cases looperOp_cases hop with
  | none => exact ⟨⟨d, h, rfl⟩, Kept.refl s⟩
  | attach handle e hnone heh => exact ⟨⟨_, h.attach hp hnone heh, rfl⟩, Kept.attach hnone⟩
  | detach handle e he hnot => exact ⟨⟨_, h.detach hp he hnot, rfl⟩, Kept.detach he⟩
  | store handle e e' he heh harmed =>
    exact ⟨⟨d, h.store he heh harmed, rfl⟩, Kept.store he heh⟩
  | stop =>
    have hk := Kept.refl s
    exact ⟨⟨d, h.flags true s.failed, rfl⟩, hk.entries, hk.removed, hk.log⟩

/-! ## The batch -/

/-- While the batch is processed that was reported in the state `s₀`. -/
def Processing (s₀ : NwcEpollLooper) (batch : List Ready) (s : NwcEpollLooper) : Prop :=
  (∃ d, Obeys s d ∧ d.phase = .batch (batch.map fun r => s₀.ref r.handle)) ∧ Kept s₀ s

theorem Processing.ops {s₀ : NwcEpollLooper} {batch : List Ready} {s t : NwcEpollLooper}
    {ops : List LooperOp} (h : Processing s₀ batch s) (hops : replay looperOp s ops = some t) :
    Processing s₀ batch t := by
  refine replay_invariant (I := fun _ => True) ?_ (fun _ _ => trivial) h hops
  rintro u op v - ⟨⟨d, hd, hphase⟩, hkept⟩ hop
  obtain ⟨⟨d', hd', hphase'⟩, hkept'⟩ := hd.op (by simp [hphase]) hop
  exact ⟨⟨d', hd', hphase'.trans hphase⟩, hkept.trans hkept'⟩

/-- An armed entry of the batch is live, and it still is the entry that was reported. -/
theorem Processing.call {s₀ : NwcEpollLooper} {batch : List Ready} {s : NwcEpollLooper} {r : Ready}
    (h : Processing s₀ batch s) (hr : r ∈ batch) (hreg : ∃ e, s₀.entries r.handle = some e)
    (ha : entryArmed r.handle (some s) = true) :
    Processing s₀ batch (s.note (.call (s.ref r.handle))) := by
  obtain ⟨⟨d, hd, hphase⟩, hkept⟩ := h
  obtain ⟨e₀, he₀⟩ := hreg
  obtain ⟨e, he, heh⟩ := hkept.entries r.handle e₀ he₀
  have harmed : e.armed = true := by simpa [entryArmed, he] using ha
  have hnot : r.handle ∉ s.removedEpollEntrys := by
    intro hmem
    obtain ⟨f, hf, hfa⟩ := hd.removed r.handle hmem
    rw [he] at hf
    cases hf
    rw [harmed] at hfa
    cases hfa
  have hsame : s.ref r.handle = s₀.ref r.handle := by
    simp [NwcEpollLooper.ref, he, he₀, heh]
  have hlive : d.Live (s.ref r.handle) := by
    simpa [NwcEpollLooper.ref, he] using hd.live r.handle e he hnot
  have hmem : s.ref r.handle ∈ batch.map fun r => s₀.ref r.handle := by
    rw [hsame]
    exact List.mem_map_of_mem hr
  have hcall : step d (.call (s.ref r.handle)) = some { d with phase := d.phase } :=
    step_call.mpr ⟨⟨_, hphase, hmem⟩, hlive, rfl⟩
  exact ⟨⟨d, hd.note hcall, hphase⟩, hkept.trans (Kept.note (by simp) (by simp))⟩

/-- One callback, and all that it does. -/
theorem Processing.callEntry {s₀ : NwcEpollLooper} {batch : List Ready} {r : Ready}
    (hr : r ∈ batch) (hreg : ∃ e, s₀.entries r.handle = some e) (ops : List LooperOp)
    {o : Option NwcEpollLooper} (ha : entryArmed r.handle o = true)
    (h : ∀ s, o = some s → Processing s₀ batch s) :
    ∀ t, Nwchecker.callEntry r.handle ops o = some t → Processing s₀ batch t := by
  intro t ht
  cases o with
  | none => cases ht
  | some s => exact ((h s rfl).call hr hreg ha).ops ht

theorem Processing.dispatchReady {s₀ : NwcEpollLooper} {batch : List Ready}
    {s t : NwcEpollLooper} {r : Ready} (h : Processing s₀ batch s) (hr : r ∈ batch)
    (hreg : ∃ e, s₀.entries r.handle = some e) (ht : dispatchReady s r = some t) :
    Processing s₀ batch t := by
  have hkeep := nwcEpollDispatch_rel
    (R := fun o o' => (∀ s, o = some s → Processing s₀ batch s) →
      ∀ t, o' = some t → Processing s₀ batch t)
    (fun _ => id) (fun _ _ _ hst htu hs => htu (hst hs)) r.flags (some s)
    (fun _ _ ha => Processing.callEntry hr hreg r.onBroken ha)
    (fun _ _ ha => Processing.callEntry hr hreg r.onInput ha)
    (fun _ _ ha => Processing.callEntry hr hreg r.onOutput ha)
  refine hkeep ?_ t ht
  intro u hu
  cases hu
  exact h

/-! ## The clean-up -/

/-- Releasing the first of the removed entries. -/
theorem Obeys.release (h : Obeys s d) (hp : d.phase = .cleaning) {rest : List Nat}
    (hr : s.removedEpollEntrys = handle :: rest) :
    Obeys (s.release handle rest) { d with waiting := rest.map s.ref } := by
  have hnodup := h.nodup
  rw [hr, List.nodup_cons] at hnodup
  -- the entries behind it are other entries, so they are still there
  have hother : ∀ x ∈ rest, (s.release handle rest).entries x = s.entries x := by
    intro x hx
    rw [release_entries, if_neg]
    rintro rfl
    exact hnodup.1 hx
  constructor
  case accepted =>
    refine replay_concat.mpr ⟨d, h.accepted, step_release.mpr ⟨hp, rest.map s.ref, ?_, rfl⟩⟩
    rw [h.waiting, hr, List.map_cons]
  case numbered => exact h.numbered
  case live =>
    intro x f hf hx
    rw [release_entries] at hf
    split at hf
    · cases hf
    · next hxh =>
      refine h.live x f hf ?_
      rw [hr, List.mem_cons, not_or]
      exact ⟨hxh, hx⟩
  case interest =>
    intro x hx
    obtain ⟨⟨f, hf⟩, hnot⟩ := h.interest x hx
    rw [hr, List.mem_cons, not_or] at hnot
    exact ⟨⟨f, by rw [release_entries, if_neg hnot.1, hf]⟩, hnot.2⟩
  case waiting =>
    refine List.map_congr_left fun x hx => ?_
    simp [NwcEpollLooper.ref, hother x hx]
  case removed =>
    intro x hx
    obtain ⟨f, hf, ha⟩ := h.removed x (by simp [hr, show x ∈ rest from hx])
    exact ⟨f, (hother x hx).trans hf, ha⟩
  case nodup => exact hnodup.2

/-- The whole list: nothing waits afterwards. -/
theorem releaseRemoved_obeys (l : List Nat) {s : NwcEpollLooper} {d : State EntryRef}
    (h : Obeys s d) (hp : d.phase = .cleaning) (hl : s.removedEpollEntrys = l) :
    ∃ d', Obeys (releaseRemoved l s) d' ∧ d'.phase = .cleaning ∧
      (releaseRemoved l s).removedEpollEntrys = [] := by
  induction l generalizing s d with
  | nil => exact ⟨d, h, hp, hl⟩
  | cons handle rest ih =>
    rw [releaseRemoved]
    exact ih (h.release hp hl) hp rfl

theorem releaseRemoved_log (l : List Nat) (s : NwcEpollLooper) :
    s.log <+: (releaseRemoved l s).log := by
  induction l generalizing s with
  | nil => exact List.prefix_rfl
  | cons handle rest ih =>
    have hfirst : s.log <+: (s.release handle rest).log := List.prefix_append _ _
    exact hfirst.trans (ih (s.release handle rest))

/-- The batch is processed and what was removed is released. -/
theorem cleanUp_obeys {s : NwcEpollLooper} {d : State EntryRef} {reported : List EntryRef}
    (h : Obeys s d) (hp : d.phase = .batch reported) :
    (∃ d', Obeys (cleanUp s) d' ∧ d'.phase = .idle) ∧ (cleanUp s).removedEpollEntrys = [] ∧
      ∃ mid, (cleanUp s).log = s.log ++ mid ++ [.clean] := by
  have hdone : Obeys (s.note .done) { d with phase := .cleaning } :=
    h.note (step_done.mpr ⟨⟨reported, hp⟩, rfl⟩)
  obtain ⟨d', hd', hp', hnil⟩ := releaseRemoved_obeys _ hdone rfl rfl
  have hempty : d'.waiting = [] := by
    rw [hd'.waiting, hnil, List.map_nil]
  refine ⟨⟨{ d' with phase := .idle }, ?_, rfl⟩, hnil, ?_⟩
  · exact hd'.note (step_clean.mpr ⟨⟨hp', hempty⟩, rfl⟩)
  · obtain ⟨mid, hmid⟩ := releaseRemoved_log s.removedEpollEntrys (s.note .done)
    refine ⟨.done :: mid, ?_⟩
    show (releaseRemoved s.removedEpollEntrys (s.note .done)).log ++ [.clean] = _
    rw [← hmid]
    simp [NwcEpollLooper.note]

/-! ## Whole runs -/

/-- Between the iterations. -/
def Idle (s : NwcEpollLooper) : Prop := ∃ d, Obeys s d ∧ d.phase = .idle

theorem Idle.op {s t : NwcEpollLooper} (h : Idle s) {op : LooperOp} (hop : looperOp s op = some t) :
    Idle t ∧ Kept s t := by
  obtain ⟨d, hd, hp⟩ := h
  obtain ⟨⟨d', hd', hp'⟩, hkept⟩ := hd.op (by simp [hp]) hop
  exact ⟨⟨d', hd', hp'.trans hp⟩, hkept⟩

theorem Idle.workers {s t : NwcEpollLooper} (h : Idle s) {ops : List LooperOp}
    (hops : replay looperOp s ops = some t) : Idle t ∧ Kept s t := by
  refine replay_invariant (P := fun u => Idle u ∧ Kept s u) (I := fun _ => True) ?_
    (fun _ _ => trivial) ⟨h, Kept.refl s⟩ hops
  rintro u op v - ⟨hu, hkept⟩ hop
  obtain ⟨hv, hkept'⟩ := hu.op hop
  exact ⟨hv, hkept.trans hkept'⟩

/-- A batch from its report to the end of the clean-up. -/
theorem Idle.batch {s t : NwcEpollLooper} (h : Idle s) {batch : List Ready}
    (hreg : ∀ r ∈ batch, r.handle ∈ s.interest)
    (ht : (replay dispatchReady (s.note (.wait (batch.map fun r => s.ref r.handle))) batch).map
      cleanUp = some t) :
    Idle t ∧ t.removedEpollEntrys = [] ∧ ∃ mid, t.log = s.log ++ mid ++ [.clean] := by
  obtain ⟨d, hd, hp⟩ := h
  obtain ⟨u, hu, rfl⟩ := Option.map_eq_some_iff.mp ht
  have hlive : ∀ o ∈ batch.map fun r => s.ref r.handle, d.Live o := by
    intro o ho
    obtain ⟨r, hr, rfl⟩ := List.mem_map.mp ho
    obtain ⟨⟨e, he⟩, hnot⟩ := hd.interest r.handle (hreg r hr)
    simpa [NwcEpollLooper.ref, he] using hd.live r.handle e he hnot
  have hstart : Processing s batch (s.note (.wait (batch.map fun r => s.ref r.handle))) := by
    have hwait := hd.note (step_wait.mpr ⟨⟨hp, hlive⟩, rfl⟩)
    exact ⟨⟨_, hwait, rfl⟩, Kept.note (by simp) (by simp)⟩
  have hend : Processing s batch u := by
    refine replay_invariant (I := fun r => r ∈ batch) ?_ (fun _ hr => hr) hstart hu
    intro v r w hr hv hstep
    exact hv.dispatchReady hr (hd.interest r.handle (hreg r hr)).1 hstep
  obtain ⟨⟨d', hd', hp'⟩, hkept⟩ := hend
  obtain ⟨⟨d'', hd'', hp''⟩, hnil, mid, hmid⟩ := cleanUp_obeys hd' hp'
  obtain ⟨front, hfront, -⟩ := hkept.log
  exact ⟨⟨d'', hd'', hp''⟩, hnil, front ++ mid, by simp [hmid, hfront]⟩

/-- The step lemma of the loop, one case for each way an iteration may end. -/
theorem looperStep_cases {s t : NwcEpollLooper} {workers : List LooperOp} {wait : WaitResult}
    (h : looperStep s (.iterate workers wait) = some t) :
    ∃ u, replay looperOp s workers = some u ∧
      match wait with
      | .interrupted => t = u
      | .failed => t = { u with failed := true }
      | .ready batch => (∀ r ∈ batch, r.handle ∈ u.interest) ∧
          (replay dispatchReady (u.note (.wait (batch.map fun r => u.ref r.handle))) batch).map
            cleanUp = some t := by
  rw [looperStep] at h
  split at h
  · cases h
  · split at h
    · cases h
    · next u hu =>
      refine ⟨u, hu, ?_⟩
      cases wait with
      | interrupted => exact (Option.some.inj h).symm
      | failed => exact (Option.some.inj h).symm
      | ready batch =>
        dsimp only at h ⊢
        split at h
        · next hreg => exact ⟨hreg, h⟩
        · cases h

theorem Idle.step {s t : NwcEpollLooper} {ev : LooperEvent} (h : Idle s)
    (hstep : looperStep s ev = some t) : Idle t := by
  cases ev with
  | setUp op => exact (h.op hstep).1
  | iterate workers wait =>
    obtain ⟨u, hu, hend⟩ := looperStep_cases hstep
    have hidle := (h.workers hu).1
    cases wait with
    | interrupted =>
      rw [show t = u from hend]
      exact hidle
    | failed =>
      obtain ⟨d, hd, hp⟩ := hidle
      rw [show t = { u with failed := true } from hend]
      exact ⟨d, hd.flags u.exit true, hp⟩
    | ready batch => exact (hidle.batch hend.1 hend.2).1

/--
**No stale event is dispatched.**

The log of every run is disciplined. A completed iteration leaves nothing on the list, and an
interrupted one releases nothing.
-/
theorem nwcEpollRun_disciplined (events : List LooperEvent) (s : NwcEpollLooper)
    (hrun : replay looperStep nwcEpollStart events = some s) :
    Disciplined s.log ∧
      (∀ workers batch t, looperStep s (.iterate workers (.ready batch)) = some t →
        t.removedEpollEntrys = [] ∧ ∃ mid, t.log = s.log ++ mid ++ [.clean]) ∧
      ∀ workers t, looperStep s (.iterate workers .interrupted) = some t →
        s.removedEpollEntrys <+: t.removedEpollEntrys ∧
          ∃ mid, t.log = s.log ++ mid ∧ .done ∉ mid ∧ ∀ x, .release x ∉ mid := by
  have hidle : Idle s := by
    refine replay_invariant (I := fun _ => True) (fun _ _ _ _ hu hstep => hu.step hstep)
      (fun _ _ => trivial) ?_ hrun
    exact ⟨init, nwcEpollStart_obeys, rfl⟩
  refine ⟨?_, fun workers batch t ht => ?_, fun workers t ht => ?_⟩
  · obtain ⟨d, hd, -⟩ := hidle
    exact disciplined_of_accepted hd.accepted
  · obtain ⟨u, hu, hreg, hend⟩ := looperStep_cases ht
    obtain ⟨hidle', hkept⟩ := hidle.workers hu
    obtain ⟨-, hnil, mid, hmid⟩ := hidle'.batch hreg hend
    obtain ⟨front, hfront, -⟩ := hkept.log
    exact ⟨hnil, front ++ mid, by simp [hmid, hfront]⟩
  · obtain ⟨u, hu, rfl⟩ := looperStep_cases ht
    have hkept := (hidle.workers hu).2
    exact ⟨hkept.removed, hkept.log⟩

/-- The first handler closes the second, whose event is in the batch, and a third takes its
descriptor. -/
def closeOther : List LooperEvent :=
  [.setUp (.addHandler (some 100) 5 0), .setUp (.addHandler (some 200) 6 0),
    .iterate [] (.ready
      [⟨100, ⟨false, false, false, true, false⟩, [],
          [.removeHandler 200, .addHandler (some 300) 6 0], []⟩,
        ⟨200, ⟨false, false, false, true, false⟩, [], [], []⟩])]

theorem closeOther_disciplined : ∃ s, replay looperStep nwcEpollStart closeOther = some s ∧
    s.log = [.add (100, some 0), .add (200, some 1), .wait [(100, some 0), (200, some 1)],
      .call (100, some 0), .remove (200, some 1), .add (300, some 2), .done,
      .release (200, some 1), .clean] ∧
    Disciplined s.log :=
  ⟨_, rfl, rfl, (nwcEpollRun_disciplined closeOther _ rfl).1⟩

end Nwchecker
