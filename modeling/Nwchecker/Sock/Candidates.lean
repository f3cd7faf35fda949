import Nwchecker.Sock.Setup

/-!
# One candidate after the other

`nwc_sock_listen` and `nwc_sock_connect` try what the resolver found, in order, until one candidate
is bound or connected. Here is what the two loops come to, in terms of the answers for the
candidates: the first that takes keeps its socket, and the sockets of the others are closed again.

`rc` of `nwc_sock_connect` is 0 from `getaddrinfo` on, and a socket that cannot be created does not
change it, so that without a single socket the call returns 0.
-/

namespace Nwchecker

open Descriptors

/-! ## The answers for one candidate -/

/-- `nwc_sock_create` returns a socket. -/
def SockAnswers.Creates (reuseaddr : Bool) (a : SockAnswers) : Prop :=
  a.socket ≠ -1 ∧ (reuseaddr → a.setsockopt ≠ -1)

/-- The results with which `nwc_sock_connect` hands out a socket. -/
def HandsOut (rc : Int) : Prop := rc = 0 ∨ rc = EINPROGRESS ∨ rc = EWOULDBLOCK

instance (rc : Int) : Decidable (HandsOut rc) := inferInstanceAs (Decidable (_ ∨ _))

/-- The candidate is connected, or will be. -/
def SockAnswers.Connects (a : SockAnswers) : Prop := a.Creates false ∧ HandsOut a.attach

/-- The candidate is bound. -/
def SockAnswers.Binds (a : SockAnswers) : Prop := a.Creates true ∧ a.attach = 0

instance (reuseaddr : Bool) (a : SockAnswers) : Decidable (a.Creates reuseaddr) :=
  inferInstanceAs (Decidable (_ ∧ _))

instance (a : SockAnswers) : Decidable a.Connects := inferInstanceAs (Decidable (_ ∧ _))

instance (a : SockAnswers) : Decidable a.Binds := inferInstanceAs (Decidable (_ ∧ _))

variable {d d' : SocketTable} {fd : Int}

/-- A socket for a candidate, or nothing. -/
theorem nwcSockCreate_cases {reuseaddr : Bool} {a : SockAnswers}
    (h : nwcSockCreate d true reuseaddr a = some (fd, d')) :
    (a.Creates reuseaddr ∧ Obtains d d' fd) ∨ (¬a.Creates reuseaddr ∧ fd = -1 ∧ d' = d) := by
  unfold nwcSockCreate at h
  split at h
  · next hsocket =>
    cases h
    exact Or.inr ⟨fun hc => hc.1 hsocket, rfl, rfl⟩
  · next hsocket =>
    split at h
    · cases h
    · next d₁ hopen =>
      obtain ⟨hnonneg, hfresh, hfile, hother⟩ := Table.opened_cases hopen
      have hob : Obtains d (d₁.changed a.socket SocketFile.setNonblock) a.socket := by
        refine ⟨hnonneg, hfresh, ⟨SocketFile.new.setNonblock, ?_, rfl⟩, fun x hx => ?_⟩
        · rw [Table.changed_file, hfile]
          rfl
        · rw [Table.changed_other d₁ _ hx, hother x hx]
      rw [if_pos rfl] at h
      dsimp only at h
      split at h
      · next hopt =>
        cases h
        exact Or.inr ⟨fun hc => hc.2 hopt.1 hopt.2, rfl, hob.closed⟩
      · next hopt =>
        cases h
        exact Or.inl ⟨⟨hsocket, fun hr hs => hopt ⟨hr, hs⟩⟩, hob⟩

/-! ## The loops -/

/--
What the loop of `nwc_sock_connect` comes to: a candidate connects and its socket is open, or none
does, nothing is open and the result is `-1` if there was a socket at all.
-/
theorem sockConnectLoop_cases {res : List AddrInfo} :
    ∀ {as : List SockAnswers} {rc rc' : Int},
      sockConnectLoop d rc res as = some (rc', fd, d') →
        (∃ c, (res.zip as).find? (fun c => c.2.Connects) = some c ∧ rc' = c.2.attach ∧
          Obtains d d' fd ∧ (d'.file fd).bind SocketFile.peer = some c.1.addr) ∨
        ((∀ c ∈ res.zip as, ¬c.2.Connects) ∧ fd = -1 ∧ d' = d ∧
          ((∃ c ∈ res.zip as, c.2.Creates false) → rc' = -1) ∧
          ((∀ c ∈ res.zip as, ¬c.2.Creates false) → rc' = rc)) := by
  induction res with
  | nil =>
    intro as rc rc' h
    cases h
    simp
  | cons ai res ih =>
    intro as rc rc' h
    cases as with
    | nil => cases h
    | cons a as =>
      unfold sockConnectLoop at h
      simp only [List.zip_cons_cons, List.mem_cons, or_and_right, exists_or, exists_eq_left,
        forall_eq_or_imp]
      split at h
      · cases h
      · next fd₁ d₁ hcreate =>
        rcases nwcSockCreate_cases hcreate with ⟨hcreates, hob⟩ | ⟨hcreates, rfl, rfl⟩
        · rw [if_pos hob.nonneg] at h
          split at h
          · next hattach =>
            cases h
            have hconnects : a.Connects := ⟨hcreates, hattach⟩
            obtain ⟨s, hs, -⟩ := hob.socket
            refine Or.inl ⟨(ai, a), ?_, rfl, hob.changed fun _ => rfl, ?_⟩
            · rw [List.find?_cons_of_pos (by simpa using hconnects)]
            · rw [Table.changed_file, hs]
              rfl
          · next hattach =>
            have hconnects : ¬a.Connects := fun hc => hattach hc.2
            rw [List.find?_cons_of_neg (by simpa using hconnects)]
            rw [hob.closed] at h
            rcases ih h with hfound | ⟨hnone, hfd, hd, hsome, hsame⟩
            · exact Or.inl hfound
            · have hrc : rc' = -1 := by
                by_cases hany : ∃ c ∈ res.zip as, c.2.Creates false
                · exact hsome hany
                · exact hsame fun c hc hcr => hany ⟨c, hc, hcr⟩
              exact Or.inr ⟨⟨hconnects, hnone⟩, hfd, hd, fun _ => hrc,
                fun hno => absurd hcreates hno.1⟩
        · have hconnects : ¬a.Connects := fun hc => hcreates hc.1
          rw [List.find?_cons_of_neg (by simpa using hconnects)]
          rw [if_neg (by decide)] at h
          rcases ih h with hfound | ⟨hnone, hfd, hd, hsome, hsame⟩
          · exact Or.inl hfound
          · refine Or.inr ⟨⟨hconnects, hnone⟩, hfd, hd, ?_, fun hno => hsame hno.2⟩
            rintro (hc | hany)
            · exact absurd hc hcreates
            · exact hsome hany

/-- The candidates that `nwc_sock_listen` tries. -/
def listenCandidates (family socktype : Int) (res : List AddrInfo) : List AddrInfo :=
  res.filter fun ai => ai.socktype = socktype ∧ ai.family = family

/-- What the loop of `nwc_sock_listen` comes to. -/
theorem sockListenLoop_cases {family socktype : Int} {res : List AddrInfo} :
    ∀ {as : List SockAnswers}, sockListenLoop family socktype d res as = some (fd, d') →
      (∃ c ∈ (listenCandidates family socktype res).zip as, c.2.Binds ∧ Obtains d d' fd ∧
        (d'.file fd).bind SocketFile.bound = some c.1.addr) ∨
      ((∀ c ∈ (listenCandidates family socktype res).zip as, ¬c.2.Binds) ∧ fd = -1 ∧ d' = d) := by
  induction res with
  | nil =>
    intro as h
    cases h
    simp [listenCandidates]
  | cons ai res ih =>
    intro as h
    unfold sockListenLoop at h
    split at h
    · next hmatch =>
      have hcons : listenCandidates family socktype (ai :: res)
          = ai :: listenCandidates family socktype res := by
        rw [listenCandidates, List.filter_cons_of_pos (by simpa using hmatch)]
        rfl
      rw [hcons]
      cases as with
      | nil => cases h
      | cons a as =>
        simp only [List.zip_cons_cons, List.mem_cons, or_and_right, exists_or, exists_eq_left,
          forall_eq_or_imp]
        dsimp only at h
        split at h
        · cases h
        · next fd₁ d₁ hcreate =>
          rcases nwcSockCreate_cases hcreate with ⟨hcreates, hob⟩ | ⟨hcreates, rfl, rfl⟩
          · rw [if_pos hob.nonneg] at h
            split at h
            · next hattach =>
              cases h
              obtain ⟨s, hs, -⟩ := hob.socket
              refine Or.inl (Or.inl ⟨⟨hcreates, hattach⟩, hob.changed fun _ => rfl, ?_⟩)
              rw [Table.changed_file, hs]
              rfl
            · next hattach =>
              rw [hob.closed] at h
              rcases ih h with hfound | ⟨hnone, hrest⟩
              · exact Or.inl (Or.inr hfound)
              · exact Or.inr ⟨⟨fun hb => hattach hb.2, hnone⟩, hrest⟩
          · rw [if_neg (by decide)] at h
            rcases ih h with hfound | ⟨hnone, hrest⟩
            · exact Or.inl (Or.inr hfound)
            · exact Or.inr ⟨⟨fun hb => hcreates hb.1, hnone⟩, hrest⟩
    · next hmatch =>
      have hskip : listenCandidates family socktype (ai :: res)
          = listenCandidates family socktype res := by
        rw [listenCandidates, List.filter_cons_of_neg (by simpa using hmatch)]
        rfl
      rw [hskip]
      exact ih h

/-! ## The calls -/

/-- A call says whether it has succeeded, and leaves open what it hands out and nothing else. -/
structure Honest (succeeds reports : Prop) (d d' : SocketTable) (fd : Int) : Prop where
  reports_iff : reports ↔ succeeds
  opened : succeeds → Obtains d d' fd
  closed : ¬succeeds → d' = d

/-- One of the candidates was bound and, if it is to listen, listens. -/
def ListenSucceeds (resolve : Resolver) (family socktype : Int) (host : String) (port : UInt16)
    (as : List SockAnswers) (listen : Int) : Prop :=
  ∃ res, resolve host (toString port.toNat) = some res ∧
    (∃ c ∈ (listenCandidates family socktype res).zip as, c.2.Binds) ∧
      (socktype = SOCK_STREAM → listen ≠ -1)

/-- One of the candidates was connected, or is being connected. -/
def ConnectSucceeds (resolve : Resolver) (peerhost : String) (peerport : UInt8)
    (as : List SockAnswers) : Prop :=
  ∃ res, resolve peerhost (toString peerport.toNat) = some res ∧ ∃ c ∈ res.zip as, c.2.Connects

/-- The resolver fails, or there is a socket for one of the candidates. -/
def HasSocket (resolve : Resolver) (peerhost : String) (peerport : UInt8)
    (as : List SockAnswers) : Prop :=
  ∀ res, resolve peerhost (toString peerport.toNat) = some res →
    ∃ c ∈ res.zip as, c.2.Creates false

/-- The candidate whose socket is handed out. -/
def connectChoice (resolve : Resolver) (peerhost : String) (peerport : UInt8)
    (as : List SockAnswers) : Option (AddrInfo × SockAnswers) :=
  (resolve peerhost (toString peerport.toNat)).bind fun res =>
    (res.zip as).find? fun c => c.2.Connects

theorem connectChoice_isSome {resolve : Resolver} {peerhost : String} {peerport : UInt8}
    {as : List SockAnswers} : (connectChoice resolve peerhost peerport as).isSome ↔
      ConnectSucceeds resolve peerhost peerport as := by
  unfold connectChoice ConnectSucceeds
  cases hres : resolve peerhost (toString peerport.toNat) with
  | none => simp
  | some res => simp

/-- What `nwc_sock_listen` comes to. -/
theorem nwcSockListen_cases {resolve : Resolver} {family socktype : Int} {host : String}
    {port : UInt16} {as : List SockAnswers} {listen : Int}
    (h : nwcSockListen resolve d family socktype host port as listen = some (fd, d')) :
    (ListenSucceeds resolve family socktype host port as listen ∧ Obtains d d' fd ∧
        ∃ res, resolve host (toString port.toNat) = some res ∧
          ∃ ai ∈ res, (d'.file fd).bind SocketFile.bound = some ai.addr) ∨
      (¬ListenSucceeds resolve family socktype host port as listen ∧ fd = -1 ∧ d' = d) := by
  unfold nwcSockListen at h
  split at h
  · next hnone =>
    cases h
    refine Or.inr ⟨?_, rfl, rfl⟩
    rintro ⟨res, hres, -⟩
    rw [hnone] at hres
    cases hres
  · next res hres =>
    split at h
    · cases h
    · next rc d₁ hloop =>
      rcases sockListenLoop_cases hloop with ⟨c, hc, hbinds, hob, hbound⟩ | ⟨hnone, rfl, rfl⟩
      · rw [if_neg (by have := hob.nonneg; omega)] at h
        split at h
        · next hlisten =>
          cases h
          exact Or.inr ⟨fun ⟨_, _, _, hl⟩ => hl hlisten.1 hlisten.2, rfl, hob.closed⟩
        · next hlisten =>
          cases h
          have hcand : c.1 ∈ listenCandidates family socktype res := (List.of_mem_zip hc).1
          exact Or.inl ⟨⟨res, hres, ⟨c, hc, hbinds⟩, fun hs hl => hlisten ⟨hs, hl⟩⟩, hob, res, hres,
            c.1, (List.mem_filter.mp hcand).1, hbound⟩
      · rw [if_pos (by decide)] at h
        cases h
        refine Or.inr ⟨?_, rfl, rfl⟩
        rintro ⟨res', hres', ⟨c, hc, hbinds⟩, -⟩
        rw [hres] at hres'
        cases hres'
        exact hnone c hc hbinds

theorem nwcSockListen_obtains {resolve : Resolver} {family socktype : Int} {host : String}
    {port : UInt16} {as : List SockAnswers} {listen : Int}
    (h : nwcSockListen resolve d family socktype host port as listen = some (fd, d')) :
    ObtainsOrNot d d' fd := by
  rcases nwcSockListen_cases h with ⟨-, hob, -⟩ | ⟨-, hnot⟩
  · exact Or.inr hob
  · exact Or.inl hnot

theorem nwcSockListen_honest {resolve : Resolver} {family socktype : Int} {host : String}
    {port : UInt16} {as : List SockAnswers} {listen : Int}
    (h : nwcSockListen resolve d family socktype host port as listen = some (fd, d')) :
    Honest (ListenSucceeds resolve family socktype host port as listen) (0 ≤ fd) d d' fd := by
  rcases nwcSockListen_cases h with ⟨hyes, hob, -⟩ | ⟨hno, rfl, hd⟩
  · exact ⟨iff_of_true hob.nonneg hyes, fun _ => hob, fun hno => absurd hyes hno⟩
  · exact ⟨iff_of_false (by decide) hno, fun hyes => absurd hyes hno, fun _ => hd⟩

/-- What `nwc_sock_connect` comes to. Without a socket `rc` is still what `getaddrinfo` returned. -/
theorem nwcSockConnect_cases {resolve : Resolver} {peerhost : String} {peerport : UInt8}
    {as : List SockAnswers} {rc : Int}
    (h : nwcSockConnect resolve d peerhost peerport as = some (rc, fd, d')) :
    (∃ c, connectChoice resolve peerhost peerport as = some c ∧
        HasSocket resolve peerhost peerport as ∧ rc = c.2.attach ∧ HandsOut rc ∧
        Obtains d d' fd ∧ (d'.file fd).bind SocketFile.peer = some c.1.addr) ∨
      (connectChoice resolve peerhost peerport as = none ∧
        HasSocket resolve peerhost peerport as ∧ rc = -1 ∧ fd = -1 ∧ d' = d) ∨
      (connectChoice resolve peerhost peerport as = none ∧
        ¬HasSocket resolve peerhost peerport as ∧ rc = 0 ∧ fd = -1 ∧ d' = d) := by
  unfold nwcSockConnect at h
  unfold connectChoice HasSocket
  cases hres : resolve peerhost (toString peerport.toNat) with
  | none =>
    rw [hres] at h
    cases h
    refine Or.inr (Or.inl ⟨rfl, ?_, rfl, rfl, rfl⟩)
    intro res hres
    cases hres
  | some res =>
    rw [hres] at h
    simp only [Option.bind_some, Option.some.injEq, forall_eq']
    rcases sockConnectLoop_cases h with ⟨c, hfind, rfl, hob, hpeer⟩ |
      ⟨hnone, hfd, hd, hsome, hsame⟩
    · have hconnects : c.2.Connects := by simpa using List.find?_some hfind
      exact Or.inl ⟨c, hfind, ⟨c, List.mem_of_find?_eq_some hfind, hconnects.1⟩, rfl, hconnects.2,
        hob, hpeer⟩
    · have hfind : (res.zip as).find? (fun c => c.2.Connects) = none := by
        simpa [List.find?_eq_none] using hnone
      by_cases hany : ∃ c ∈ res.zip as, c.2.Creates false
      · exact Or.inr (Or.inl ⟨hfind, hany, hsome hany, hfd, hd⟩)
      · exact Or.inr (Or.inr ⟨hfind, hany, hsame fun c hc hcr => hany ⟨c, hc, hcr⟩, hfd, hd⟩)

theorem nwcSockConnect_obtains {resolve : Resolver} {peerhost : String} {peerport : UInt8}
    {as : List SockAnswers} {rc : Int}
    (h : nwcSockConnect resolve d peerhost peerport as = some (rc, fd, d')) :
    ObtainsOrNot d d' fd := by
  rcases nwcSockConnect_cases h with ⟨_, -, -, -, -, hob, -⟩ | ⟨-, -, -, hnot⟩ | ⟨-, -, -, hnot⟩
  · exact Or.inr hob
  · exact Or.inl hnot
  · exact Or.inl hnot

/-- It is honest only if there is a socket. -/
theorem nwcSockConnect_honest_iff {resolve : Resolver} {peerhost : String} {peerport : UInt8}
    {as : List SockAnswers} {rc : Int}
    (h : nwcSockConnect resolve d peerhost peerport as = some (rc, fd, d')) :
    Honest (ConnectSucceeds resolve peerhost peerport as) (HandsOut rc) d d' fd ↔
      HasSocket resolve peerhost peerport as := by
  rw [← connectChoice_isSome]
  rcases nwcSockConnect_cases h with ⟨c, hchoice, hsocket, -, hrc, hob, -⟩ |
    ⟨hchoice, hsocket, rfl, -, hd⟩ | ⟨hchoice, hsocket, rfl, -, -⟩
  · rw [hchoice]
    exact iff_of_true ⟨iff_of_true hrc rfl, fun _ => hob, fun hno => absurd rfl hno⟩ hsocket
  · rw [hchoice]
    refine iff_of_true ⟨iff_of_false (by decide) (by simp), fun hs => ?_, fun _ => hd⟩ hsocket
    cases hs
  · rw [hchoice]
    refine iff_of_false (fun h => ?_) hsocket
    have hs := h.reports_iff.mp (by decide)
    cases hs

/--
**Socket set-up is honest, except for a connect without a single socket.**

For every resolver, every list of candidates and every answer of the system: `nwc_sock_listen` is
honest always, and `nwc_sock_connect` exactly when the resolver fails or some candidate gets a
socket.
-/
theorem sockSetup_honest_iff (resolve : Resolver) (d : SocketTable) (as : List SockAnswers) :
    (∀ (d' : SocketTable) (family socktype : Int) (host : String) (port : UInt16)
      (listen rc : Int),
      nwcSockListen resolve d family socktype host port as listen = some (rc, d') →
        Honest (ListenSucceeds resolve family socktype host port as listen) (0 ≤ rc) d d' rc) ∧
    ∀ (d' : SocketTable) (peerhost : String) (peerport : UInt8) (rc fd : Int),
      nwcSockConnect resolve d peerhost peerport as = some (rc, fd, d') →
        (Honest (ConnectSucceeds resolve peerhost peerport as) (HandsOut rc) d d' fd ↔
          HasSocket resolve peerhost peerport as) :=
  ⟨fun _ _ _ _ _ _ _ h => nwcSockListen_honest h,
    fun _ _ _ _ _ h => nwcSockConnect_honest_iff h⟩

/-- Two stream addresses, whatever is asked for. -/
def twoAddresses : Resolver := fun _ _ =>
  some
    [{ family := AF_INET, socktype := SOCK_STREAM, addr := { port := 7, addr := 1 } },
      { family := AF_INET, socktype := SOCK_STREAM, addr := { port := 7, addr := 2 } }]

/-- The first address is refused, the second one taken. -/
def secondTakes : List SockAnswers :=
  [{ socket := 3, setsockopt := 0, attach := ECONNREFUSED },
    { socket := 3, setsockopt := 0, attach := EINPROGRESS }]

theorem secondTakes_honest :
    ∃ d', nwcSockConnect twoAddresses Table.empty "peer" 7 secondTakes
        = some (EINPROGRESS, 3, d') ∧
      Honest (ConnectSucceeds twoAddresses "peer" 7 secondTakes) (HandsOut EINPROGRESS)
        Table.empty d' 3 := by
  obtain ⟨d', hd'⟩ : ∃ d', nwcSockConnect twoAddresses Table.empty "peer" 7 secondTakes
      = some (EINPROGRESS, 3, d') := ⟨_, rfl⟩
  refine ⟨d', hd', ((sockSetup_honest_iff _ _ _).2 _ _ _ _ _ hd').mpr fun res hres => ?_⟩
  cases hres
  decide

/-- The process has no descriptors left. -/
def noSockets : List SockAnswers :=
  [{ socket := -1, setsockopt := 0, attach := 0 }, { socket := -1, setsockopt := 0, attach := 0 }]

/-- The call returns 0 and hands out no socket. -/
theorem noSockets_not_honest :
    nwcSockConnect twoAddresses Table.empty "peer" 7 noSockets = some (0, -1, Table.empty) ∧
      ¬Honest (ConnectSucceeds twoAddresses "peer" 7 noSockets) (HandsOut 0) Table.empty
        Table.empty (-1) := by
  refine ⟨rfl, fun h => ?_⟩
  obtain ⟨res, hres, hany⟩ := h.reports_iff.mp (by decide)
  cases hres
  exact absurd hany (by decide)

end Nwchecker
