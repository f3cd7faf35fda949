import Nwchecker.UnixIo.SigioServer

/-!
# Datagrams that are not read

`SIGIO` tells the server that something has arrived, once for any number of datagrams, and the
handler reads until nothing is left. So a datagram is either announced by a signal that is pending,
or in the hands of the handler, or it arrived before there were signals. The last ones are what the
server may sleep on.
-/

namespace Nwchecker.UnixIo

open Descriptors Machine

namespace SigioServer

variable {s t : SigioServer}

/-- The server does not sleep on datagrams, and answers those that it has taken in their order. -/
structure KeepsUp (s : SigioServer) : Prop where
  awake : s.pc = .suspended → s.handling = false → s.pending = false → s.queue = []
  arrivals : s.taken ++ s.queue = s.arrived
  inOrder : s.pongs.map Pong.addr ++ s.nwcHdr.map NwcConnection.addr = s.taken
  answered : s.pc = .suspended → s.handling = false → s.pongs.map Pong.addr = s.taken
  opened : ∀ p ∈ s.pongs, p.opened = true

/-- A datagram has arrived with a signal, or all have. -/
def Announced (s : SigioServer) : Prop := s.silent = 0 ∨ s.silent < s.arrived.length

instance (s : SigioServer) : Decidable s.Announced := inferInstanceAs (Decidable (_ ∨ _))

/--
No connection that is freed has the number of the socket in it. And when `sigsuspend` is called, no
datagram has arrived before `O_ASYNC` was set, or one has arrived since. And `recvfrom` fails in the
handler only when there is nothing to be received.
-/
def Heeds (s : SigioServer) (e : Event) : Prop :=
  (∀ nwc ∈ s.freed e, nwc.fd ≠ s.sockFd) ∧
    match e with
    | .main _ => s.pc = .top → s.nwcHdr = [] → s.Announced
    | .handle _ fails => fails = true → s.queue = []
    | _ => True

/-- What is in the queue is announced by a signal, or came before there were signals. -/
structure Inv (s : SigioServer) : Prop where
  sock : s.files.file s.sockFd ≠ none
  arrivals : s.taken ++ s.queue = s.arrived
  inOrder : s.pongs.map Pong.addr ++ s.nwcHdr.map NwcConnection.addr = s.taken
  opened : ∀ p ∈ s.pongs, p.opened = true
  before : isAsync s.pc = false → s.silent = s.arrived.length
  covered : s.queue ≠ [] → s.pending = true ∨ s.handling = true ∨ s.arrived.length ≤ s.silent
  announced : s.pc = .suspended → s.Announced
  idle : s.pc = .suspended → s.handling = false → s.nwcHdr = []

theorem Inv.toKeepsUp (hi : s.Inv) : s.KeepsUp where
  awake := by
    intro hpc hhandling hpending
    by_contra hqueue
    have hlen : s.arrived.length ≤ s.silent := by
      rcases hi.covered hqueue with h | h | h
      · rw [hpending] at h
        cases h
      · rw [hhandling] at h
        cases h
      · exact h
    have harrived := congrArg List.length hi.arrivals
    rw [List.length_append] at harrived
    have hpos := List.length_pos_iff.mpr hqueue
    rcases hi.announced hpc with h | h
    · omega
    · omega
  arrivals := hi.arrivals
  inOrder := hi.inOrder
  answered := by
    intro hpc hhandling
    have h := hi.inOrder
    rwa [hi.idle hpc hhandling, List.map_nil, List.append_nil] at h
  opened := hi.opened

/-- A connection with another number in it is freed. -/
theorem Inv.free (hi : s.Inv) {nwc : NwcConnection} (hne : nwc.fd ≠ s.sockFd) :
    (s.free nwc).Inv where
  sock := by
    show (freeNwcConn s.files nwc).file s.sockFd ≠ none
    unfold freeNwcConn
    split
    · rw [Table.closed_other _ hne.symm]
      exact hi.sock
    · exact hi.sock
  arrivals := by
    simp only [SigioServer.free, if_neg hne]
    exact hi.arrivals
  inOrder := hi.inOrder
  opened := hi.opened
  before := hi.before
  covered := by
    simp only [SigioServer.free, if_neg hne]
    exact hi.covered
  announced := hi.announced
  idle := hi.idle

theorem Inv.answer (hi : s.Inv) {nwc : NwcConnection} {rest : List NwcConnection}
    (hpc : s.pc = .answering) (hhdr : s.nwcHdr = nwc :: rest) (hne : nwc.fd ≠ s.sockFd) :
    (s.answer nwc rest).Inv := by
  have hin := hi.inOrder
  rw [hhdr] at hin
  refine Inv.free (s := { s.sendto nwc.addr with nwcHdr := rest }) ?_ hne
  refine
    { sock := hi.sock, arrivals := hi.arrivals, inOrder := ?_, opened := ?_, before := hi.before
      covered := hi.covered, announced := hi.announced, idle := ?_ }
  · simpa [sendto] using hin
  · intro p hp
    rcases List.mem_append.mp hp with hp | hp
    · exact hi.opened p hp
    · rw [List.mem_singleton.mp hp]
      exact Option.isSome_iff_ne_none.mpr hi.sock
  · intro hsusp
    have hpc' : s.pc = .suspended := hsusp
    rw [hpc] at hpc'
    cases hpc'

theorem Inv.arrive (hi : s.Inv) (d : SockAddr) : (s.arrive d).Inv where
  sock := hi.sock
  arrivals := by
    show s.taken ++ (s.queue ++ [d]) = s.arrived ++ [d]
    rw [← List.append_assoc, hi.arrivals]
  inOrder := hi.inOrder
  opened := hi.opened
  before := by
    intro hpc
    have hpc' : isAsync s.pc = false := hpc
    simp [SigioServer.arrive, hpc', hi.before hpc']
  covered := by
    intro _
    cases hpc : isAsync s.pc with
    | true => exact Or.inl (by simp [SigioServer.arrive, hpc])
    | false =>
      refine Or.inr (Or.inr ?_)
      simp [SigioServer.arrive, hpc, hi.before hpc]
  announced := by
    intro hpc
    have hpc' : s.pc = .suspended := hpc
    have hasync : isAsync s.pc = true := by rw [hpc']; rfl
    have hann := hi.announced hpc'
    simp only [Announced, SigioServer.arrive, hasync, if_true, List.length_append,
      List.length_singleton]
    exact hann.imp_right fun hlt => by omega
  idle := hi.idle

/-- `recvfrom` returns -1 on an empty queue. -/
theorem Inv.handled (hi : s.Inv) {nwc : NwcConnection} (hqueue : s.queue = [])
    (hne : nwc.fd ≠ s.sockFd) : (s.handled nwc).Inv := by
  have hfree := hi.free hne
  have hnil : (s.free nwc).queue = [] := by simp [SigioServer.free, hqueue]
  refine
    { sock := hfree.sock, arrivals := hfree.arrivals, inOrder := hfree.inOrder
      opened := hfree.opened, before := ?_, covered := fun hne => absurd hnil hne, announced := ?_
      idle := ?_ }
  · intro hpc
    refine hi.before ?_
    by_cases hsusp : s.pc = .suspended
    · simp [SigioServer.handled, hsusp, isAsync] at hpc
    · simpa [SigioServer.handled, hsusp] using hpc
  · intro hpc
    by_cases hsusp : s.pc = .suspended
    · simp [SigioServer.handled, hsusp] at hpc
    · simp [SigioServer.handled, hsusp] at hpc
  · intro hpc
    by_cases hsusp : s.pc = .suspended
    · simp [SigioServer.handled, hsusp] at hpc
    · simp [SigioServer.handled, hsusp] at hpc

theorem Inv.take (hi : s.Inv) (hhandling : s.handling = true) (nwc : NwcConnection) {d : SockAddr}
    {rest : List SockAddr} (hqueue : s.queue = d :: rest) : (s.take nwc d rest).Inv where
  sock := hi.sock
  arrivals := by
    have h := hi.arrivals
    rw [hqueue] at h
    simpa [SigioServer.take] using h
  inOrder := by
    have h := hi.inOrder
    simp [SigioServer.take, ← h]
  opened := hi.opened
  before := hi.before
  covered := fun _ => Or.inr (Or.inl hhandling)
  announced := hi.announced
  idle := by
    intro _ hnot
    have hnot' : s.handling = false := hnot
    rw [hhandling] at hnot'
    cases hnot'

theorem recvfrom_some {fails : Bool} {d : SockAddr} {rest : List SockAddr}
    (h : s.recvfrom fails = some (d, rest)) : s.queue = d :: rest := by
  unfold recvfrom at h
  split at h
  · cases h
  · next hqueue =>
    split at h
    · cases h
    · cases h
      exact hqueue

/-- With the socket open, -1 means an empty queue or another failure. -/
theorem recvfrom_none {fails : Bool} (hsock : s.files.file s.sockFd ≠ none)
    (hfails : fails = true → s.queue = []) (h : s.recvfrom fails = none) : s.queue = [] := by
  unfold recvfrom at h
  split at h
  · next hqueue => exact hqueue
  · split at h
    · next hor =>
      refine hfails ?_
      simpa [hsock] using hor
    · cases h

theorem Inv.step (hi : s.Inv) {e : Event} (he : s.Heeds e) (h : s.step e = some t) : t.Inv := by
  obtain ⟨hfreed, he⟩ := he
  cases e with
  | main rc =>
    simp only [SigioServer.step] at h
    split at h
    · rcases main_cases h with ⟨nwc, rest, hpc, hhdr, rfl⟩ | ⟨pc, rfl, -, hasync, hsusp⟩
      · exact hi.answer hpc hhdr (hfreed nwc (by simp [freed, hpc, hhdr]))
      · exact
          { sock := hi.sock, arrivals := hi.arrivals, inOrder := hi.inOrder, opened := hi.opened
            before := fun hpc => hi.before (hasync hpc)
            covered := hi.covered
            announced := fun hpc => he (hsusp hpc).1 (hsusp hpc).2
            idle := fun hpc _ => (hsusp hpc).2 }
    · cases h
  | arrive d =>
    simp only [SigioServer.step] at h
    split at h
    · cases h
      exact hi.arrive d
    · cases h
  | deliver =>
    simp only [SigioServer.step] at h
    split at h
    · cases h
      exact
        { sock := hi.sock, arrivals := hi.arrivals, inOrder := hi.inOrder, opened := hi.opened
          before := hi.before
          covered := fun _ => Or.inr (Or.inl rfl)
          announced := hi.announced
          idle := fun _ hnot => by cases hnot }
    · cases h
  | handle mem fails =>
    simp only [SigioServer.step] at h
    split at h
    · next hhandling =>
      cases h
      unfold handle
      cases hrecv : s.recvfrom fails with
      | none =>
        exact hi.handled (recvfrom_none hi.sock he hrecv) (hfreed mem (by simp [freed, hrecv]))
      | some r => exact hi.take hhandling _ (recvfrom_some hrecv)
    · cases h

theorem start_inv {files : Table Unit} {sockFd : Int} (h : start files sockFd = some s) :
    s.Inv := by
  have hsock := (start_closesNothing h).opened
  obtain ⟨files', -, rfl⟩ := Option.map_eq_some_iff.mp h
  exact
    { sock := hsock, arrivals := rfl, inOrder := rfl, opened := fun _ hp => by cases hp
      before := fun _ => rfl, covered := fun hne => absurd rfl hne
      announced := fun hpc => by cases hpc
      idle := fun hpc => by cases hpc }

/--
**The server does not sleep on datagrams that were announced.**

In every state of a run whose steps heed the conditions, the queue is empty while the process is
suspended without a pending signal, and every datagram that the handler took is answered once, in
the order of arrival.
-/
theorem keepsUp (files : Table Unit) (sockFd : Int) (events : List Event) (s t : SigioServer)
    (hstart : start files sockFd = some s) (hheeds : Along step s events Heeds)
    (hvisit : Visits step s events t) : t.KeepsUp :=
  (visits_invariant (fun _ _ _ hi he hstep => hi.step he hstep) (start_inv hstart) hheeds
    hvisit).toKeepsUp

instance (s : SigioServer) : ∀ e, Decidable (s.Heeds e)
  | .main rc =>
    inferInstanceAs (Decidable ((∀ nwc ∈ s.freed (.main rc), nwc.fd ≠ s.sockFd) ∧
      (s.pc = .top → s.nwcHdr = [] → s.Announced)))
  | .handle mem fails =>
    inferInstanceAs (Decidable ((∀ nwc ∈ s.freed (.handle mem fails), nwc.fd ≠ s.sockFd) ∧
      (fails = true → s.queue = [])))
  | .arrive d =>
    inferInstanceAs (Decidable ((∀ nwc ∈ s.freed (.arrive d), nwc.fd ≠ s.sockFd) ∧ True))
  | .deliver =>
    inferInstanceAs (Decidable ((∀ nwc ∈ s.freed .deliver, nwc.fd ≠ s.sockFd) ∧ True))

theorem announced_keepsUp : ∃ s t, sampleStart = some s ∧
    replay step s (setsUp ++ takesOne (-1) ++ [.main 0, .main 0]) = some t ∧ t.KeepsUp := by
  obtain ⟨s, hs, hrun, hheeds⟩ : ∃ s ∈ sampleStart,
      (replay step s (setsUp ++ takesOne (-1) ++ [.main 0, .main 0])).isSome ∧
        Along step s (setsUp ++ takesOne (-1) ++ [.main 0, .main 0]) Heeds := by
    decide +kernel
  obtain ⟨t, ht⟩ := Option.isSome_iff_exists.mp hrun
  exact ⟨s, t, hs, ht, keepsUp _ _ _ s t hs hheeds ⟨_, List.prefix_rfl, ht⟩⟩

/-- The datagram that comes first of all is not read. -/
theorem early_unread : ∃ s t, sampleStart = some s ∧
    replay step s (.arrive sampleAddr :: setsUp) = some t ∧ ¬t.KeepsUp := by
  obtain ⟨s, hs, t, ht, hpc, hhandling, hpending, hqueue⟩ : ∃ s ∈ sampleStart,
      ∃ t ∈ replay step s (.arrive sampleAddr :: setsUp),
        t.pc = .suspended ∧ t.handling = false ∧ t.pending = false ∧ t.queue = [sampleAddr] := by
    decide +kernel
  refine ⟨s, t, hs, ht, fun hkeeps => ?_⟩
  have hnil := hkeeps.awake hpc hhandling hpending
  rw [hqueue] at hnil
  cases hnil

end SigioServer

end Nwchecker.UnixIo
