import Nwchecker.Lib.Holdings
import Nwchecker.UnixIo.FdSets
import Nwchecker.UnixIo.Server

/-!
# The descriptors of the select server

`nwc_server` opens its listening socket and a descriptor for each connection, and closes them in
three places: where a transfer fails, where the ring is swept, and at its end. `descriptors_exact`
says that it knows what it has open at every moment of every run, and that it leaves nothing behind.
-/

namespace Nwchecker.UnixIo

open Descriptors Descriptors.Table Machine

variable {d₀ d : Table Unit} {rest : List Int}

/-- `destroy_all_nwc` gives back what the ring has. -/
theorem holds_destroyAllNwc {hdr : List NwcConnection} (h : d₀.Holds (liveFds hdr ++ rest) d) :
    d₀.Holds rest (destroyAllNwc d hdr) := by
  induction hdr generalizing d with
  | nil => exact h
  | cons c hdr ih =>
    show d₀.Holds rest (destroyAllNwc (freeNwcConn d c) hdr)
    refine ih ?_
    unfold freeNwcConn
    by_cases hc : c.fd = -1
    · rw [liveFds_cons_dead hc] at h
      rw [if_neg (not_not_intro hc)]
      exact h
    · rw [liveFds_cons hc] at h
      rw [if_pos hc]
      exact h.close

namespace NwcServer

/-- The connections of the ring. -/
def hdr (s : NwcServer) : List NwcConnection := s.peers.map fun p => p.nwc

/-- What the server has open. -/
def held (s : NwcServer) : List Int :=
  if s.phase = .left then [] else liveFds s.hdr ++ [s.sockFd]

/--
The server has open what it holds and nothing else besides `d₀`, and it makes its calls only for
connections that have a descriptor.
-/
structure Accounts (d₀ : Table Unit) (s : NwcServer) : Prop where
  holds : d₀.Holds s.held s.files
  served : ∀ i readfds writefds, s.phase = .serving i readfds writefds →
    ∀ p ∈ s.peers, p.nwc.fd ≠ -1
  left : s.phase = .left → s.peers = []

variable {s t : NwcServer}

theorem held_running (h : s.phase ≠ .left) : s.held = liveFds s.hdr ++ [s.sockFd] := if_neg h

theorem Accounts.holds_running (h : s.Accounts d₀) (hphase : s.phase ≠ .left) :
    d₀.Holds (liveFds s.hdr ++ [s.sockFd]) s.files := held_running hphase ▸ h.holds

/-- At the end everything is closed. -/
theorem leave_accounts (h : d₀.Holds (liveFds s.hdr ++ [s.sockFd]) s.files) :
    s.leave.Accounts d₀ where
  holds := (holds_destroyAllNwc h).close
  served := fun _ _ _ hphase => by cases hphase
  left := fun _ => rfl

/-- In front of the loop over the connections, which all have descriptors. -/
theorem serve_accounts (h : d₀.Holds (liveFds s.hdr ++ [s.sockFd]) s.files)
    (hlive : ∀ p ∈ s.peers, p.nwc.fd ≠ -1) (readfds writefds : List Int) :
    (s.serve readfds writefds).Accounts d₀ := by
  have hphase : (s.serve readfds writefds).phase ≠ .left := by
    unfold serve
    dsimp only
    split <;> simp
  refine ⟨?_, fun _ _ _ _ => hlive, fun hleft => absurd hleft hphase⟩
  rw [held_running hphase]
  exact h

theorem sweep_hdr : liveFds s.sweep.hdr = liveFds s.hdr := by
  show liveFds ((s.peers.filter fun p => p.nwc.fd ≠ -1).map fun p => p.nwc) = liveFds s.hdr
  rw [← liveFds_sweep s.hdr, hdr, List.filter_map]
  rfl

/-- One return of `select`. -/
theorem Accounts.selected (h : s.Accounts d₀) (hphase : s.phase = .top) {answer : SelectAnswer}
    (hstep : s.sweep.selected answer = some t) : t.Accounts d₀ := by
  have hholds : d₀.Holds (liveFds s.sweep.hdr ++ [s.sockFd]) s.files := by
    rw [sweep_hdr]
    exact h.holds_running (by rw [hphase]; decide)
  have hlive : ∀ p ∈ s.sweep.peers, p.nwc.fd ≠ -1 := fun p hp => by
    simpa using (List.mem_filter.mp hp).2
  cases answer with
  | failed errno =>
    simp only [NwcServer.selected] at hstep
    cases hstep
    split
    · exact ⟨hholds, fun _ _ _ hserving => (by cases hserving), fun hleft => (by cases hleft)⟩
    · exact leave_accounts hholds
  | ready readable writable accept mem =>
    simp only [NwcServer.selected] at hstep
    split at hstep
    · split at hstep
      · cases hstep
        split
        · exact leave_accounts hholds
        · exact serve_accounts hholds hlive _ _
      · next fd =>
        obtain ⟨files, hfiles, rfl⟩ := Option.map_eq_some_iff.mp hstep
        obtain ⟨hpos, -, -, -⟩ := opened_cases hfiles
        have hfd : (acceptedPeer mem fd).nwc.fd ≠ -1 := by
          show fd ≠ -1
          omega
        refine serve_accounts ((hholds.open hfiles).of_perm ?_)
          (List.forall_mem_append.mpr ⟨hlive, List.forall_mem_singleton.mpr hfd⟩) _ _
        show (fd :: (liveFds s.sweep.hdr ++ [s.sockFd])).Perm
          (liveFds ((s.sweep.peers ++ [acceptedPeer mem fd]).map fun p => p.nwc) ++ [s.sockFd])
        rw [List.map_append, liveFds_append, List.map_singleton, liveFds_cons hfd,
          List.append_assoc]
        exact List.perm_middle.symm
    · cases hstep
      exact serve_accounts hholds hlive _ _

/-- One pass of the loop: the connection keeps its descriptor, or the descriptor is closed. -/
theorem Accounts.visited (h : s.Accounts d₀) {i : Nat} {readfds writefds : List Int} {p : Peer}
    (hphase : s.phase = .serving i readfds writefds) (hp : s.peers[i]? = some p)
    (a : ServeAnswers) : (s.visited i readfds writefds p a).Accounts d₀ := by
  have hlive := h.served i readfds writefds hphase
  have hpfd : p.nwc.fd ≠ -1 := hlive p (List.mem_of_getElem? hp)
  have hholds := h.holds_running (by rw [hphase]; simp)
  have hget : s.hdr[i]? = some p.nwc := by rw [hdr, List.getElem?_map, hp]; rfl
  obtain ⟨pre, post, hold, hset⟩ := liveFds_set hget hpfd
  rw [hold] at hholds
  have hfd := @WorkerProcess.serveVisit_fd (decide (s.echoMode ≠ 3)) (decide (s.echoMode ≠ 2))
    (decide (p.nwc.fd ∈ readfds)) (decide (p.nwc.fd ∈ writefds)) p.nwc a
  unfold NwcServer.visited
  dsimp only
  generalize serveVisit _ _ _ _ p.nwc a = v at hfd ⊢
  have hhdr : (s.peers.set i (p.after v)).map (fun p => p.nwc) = s.hdr.set i v.nwc := by
    rw [List.map_set]
    rfl
  have hrunning : (if v.left ∨ i + 1 = s.peers.length then Phase.top
      else .serving (i + 1) readfds writefds) ≠ .left := by
    split <;> simp
  refine ⟨?_, fun j r w hserving => ?_, fun hleft => absurd hleft hrunning⟩
  · rw [held_running hrunning]
    show d₀.Holds (liveFds ((s.peers.set i (p.after v)).map fun p => p.nwc) ++ [s.sockFd]) _
    rw [hhdr, hset]
    cases hleft : v.left with
    | true =>
      rw [hleft] at hfd
      rw [liveFds_cons_dead hfd, if_pos rfl]
      refine Holds.close (hholds.of_perm ?_)
      rw [List.append_assoc, List.cons_append]
      refine List.perm_middle.trans (.of_eq ?_)
      rw [List.append_assoc]
      rfl
    | false =>
      rw [hleft] at hfd
      have hvfd : v.nwc.fd = p.nwc.fd := hfd
      rw [liveFds_cons (by rw [hvfd]; exact hpfd), hvfd]
      exact hholds
  · intro q hq
    have hleft : v.left = false := by
      by_contra hcontra
      rw [if_pos (Or.inl (by simpa using hcontra))] at hserving
      cases hserving
    rcases List.mem_or_eq_of_mem_set hq with hq | rfl
    · exact hlive q hq
    · rw [hleft] at hfd
      show v.nwc.fd ≠ -1
      rw [show v.nwc.fd = p.nwc.fd from hfd]
      exact hpfd

theorem Accounts.step (h : s.Accounts d₀) {e : Event} (hstep : s.step e = some t) :
    t.Accounts d₀ := by
  cases e with
  | select answer =>
    simp only [NwcServer.step] at hstep
    split at hstep
    · next hphase => exact h.selected hphase hstep
    · cases hstep
  | visit a =>
    simp only [NwcServer.step] at hstep
    split at hstep
    · next i readfds writefds hphase =>
      obtain ⟨p, hp, rfl⟩ := Option.map_eq_some_iff.mp hstep
      exact h.visited hphase hp a
    · cases hstep

theorem start_accounts {sockFd : Int} (echoMode : Int) (h : d₀.opened sockFd () = some d) :
    (start d sockFd echoMode).Accounts d₀ where
  holds := (holds_nil d₀).open h
  served := fun _ _ _ hphase => by cases hphase
  left := fun hphase => by cases hphase

/--
**The server knows what it has open, closes only that, and leaves nothing behind.**

In every run and echo mode, whatever `select`, `accept`, `recv` and `send` return: the open files
are those from before, the listening socket, and one for each live connection of the ring.
-/
theorem descriptors_exact (files files' : Table Unit) (sockFd echoMode : Int) (events : List Event)
    (s : NwcServer) (hopen : files.opened sockFd () = some files')
    (hrun : replay step (start files' sockFd echoMode) events = some s) :
    s.Accounts files ∧ (s.phase = .left → s.files = files) := by
  have haccounts : s.Accounts files := replay_invariant (I := fun _ => True)
    (fun _ _ _ _ h hstep => h.step hstep) (fun _ _ => trivial) (start_accounts echoMode hopen) hrun
  refine ⟨haccounts, fun hleft => Holds.eq ?_⟩
  have hheld : s.held = [] := if_pos hleft
  exact hheld ▸ haccounts.holds

/-- Two clients connect, the first one is closed, and `select` fails. -/
def oneCloses : List Event :=
  [clientConnects, .visit { recv := .error EAGAIN, send := .error EINTR },
    .select (.ready [3, 4] [] (.ok 5) .blank), .visit { recv := .ok 0, send := .error EBADF },
    .select (.failed EBADF)]

theorem oneCloses_exact : ∃ files s, (Table.empty : Table Unit).opened 3 () = some files ∧
    replay step (start files 3 0) oneCloses = some s ∧ s.phase = .left ∧ s.files = Table.empty := by
  have hview : ((Table.empty : Table Unit).opened 3 ()).bind (fun files =>
      (replay step (start files 3 0) oneCloses).map fun s => decide (s.phase = .left))
        = some true := by decide +kernel
  obtain ⟨files, hfiles, hview⟩ := Option.bind_eq_some_iff.mp hview
  obtain ⟨s, hs, hleft⟩ := Option.map_eq_some_iff.mp hview
  have hleft := of_decide_eq_true hleft
  exact ⟨files, s, hfiles, hs, hleft,
    (descriptors_exact Table.empty files 3 0 oneCloses s hfiles hs).2 hleft⟩

end NwcServer

end Nwchecker.UnixIo
