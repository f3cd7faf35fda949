import Nwchecker.Lib.Holdings
import Nwchecker.Sock.Setup

/-!
# Into the multicast group

`mcast.c`, and what `mcast_client.c` and `mcast_server.c` do before their first datagram, which is
the same in both: the address of the group, a socket on the port, the membership, the TTL and the
loopback. The answers of the resolver and of the system are parameters.
-/

namespace Nwchecker.Mcast

open Descriptors Descriptors.Table

def AF_INET6 : Int := 10

/-- What `getaddrinfo` found, and what is kept of it in a `struct sockaddr_storage`. -/
structure Addr where
  family : Int
  host : List UInt8
  deriving DecidableEq, Repr

/-- The families for which there is an option. -/
def HasOptions (family : Int) : Prop := family = AF_INET ∨ family = AF_INET6

instance (family : Int) : Decidable (HasOptions family) := inferInstanceAs (Decidable (_ ∨ _))

/-- A socket, as far as datagrams of a group are concerned. -/
structure McastFile where
  bound : Option Addr
  /-- The group it is a member of, and the local address it joined with. -/
  member : Option (Addr × Option Addr)
  ttl : Int
  loop : Int
  deriving DecidableEq, Repr

/-- A new socket. Its own datagrams come back until it says otherwise. -/
def McastFile.new : McastFile where
  bound := none
  member := none
  ttl := 1
  loop := 1

abbrev McastTable := Table McastFile

/-! ## `mcast.c` -/

/-- The answers for one candidate: what `socket` returns, and whether `bind` succeeds. -/
structure ListenAnswers where
  socket : Int
  binds : Bool
  deriving DecidableEq, Repr

/-- The loop of `mcast_listen`, from `res` on: the descriptor that was bound, or `-1`. -/
def mcastListenLoop (family : Int) :
    McastTable → List Addr → List ListenAnswers → Option (Int × McastTable)
  | d, [], _ => some (-1, d)
  | _, _ :: _, [] => none
  | d, ai :: res, a :: as =>
    if 0 ≤ a.socket then
      match d.opened a.socket .new with
      | none => none
      | some d =>
        if ai.family = family ∧ a.binds then
          some (a.socket, d.changed a.socket fun s => { s with bound := some ai })
        else mcastListenLoop family (d.closed a.socket) res as
    else mcastListenLoop family (d.closed a.socket) res as

/-- `mcast_listen`. -/
def mcastListen (d : McastTable) (family : Int) (res : Option (List Addr))
    (as : List ListenAnswers) : Option (Int × McastTable) :=
  match res with
  | none => some (-1, d)
  | some res => mcastListenLoop family d res as

/--
The loop of `mcast_get_addr`: `*addr` becomes the first address for which there is a socket, which
is closed at once. If there is a socket for none, `*addr` is left as it is.
-/
def mcastGetAddrLoop : McastTable → Addr → List Addr → List Int → Option (Addr × McastTable)
  | d, addr, [], _ => some (addr, d)
  | _, _, _ :: _, [] => none
  | d, addr, ai :: res, sockfd :: as =>
    if sockfd < 0 then mcastGetAddrLoop d addr res as
    else
      match d.opened sockfd .new with
      | none => none
      | some d => some (ai, d.closed sockfd)

/-- `mcast_get_addr`: the result and `*addr`. The 0 of `getaddrinfo` is the result of the loop. -/
def mcastGetAddr (d : McastTable) (addr : Addr) (res : Option (List Addr)) (as : List Int) :
    Option (Int × Addr × McastTable) :=
  match res with
  | none => some (-1, addr, d)
  | some res => (mcastGetAddrLoop d addr res as).map fun r => (0, r)

/-- A `setsockopt` that is made for the two families and succeeds or not. Else the result is 0. -/
def setOption (d : McastTable) (fd family : Int) (succeeds : Bool) (g : McastFile → McastFile) :
    Int × McastTable :=
  if HasOptions family then if succeeds then (0, d.changed fd g) else (-1, d) else (0, d)

/-- `mcast_join_group`, that is `mcast_join_or_leave_group` with `isjoin`. -/
def mcastJoinGroup (d : McastTable) (fd : Int) (mcastAddr : Addr) (localaddr : Option Addr)
    (succeeds : Bool) : Int × McastTable :=
  setOption d fd mcastAddr.family succeeds fun s => { s with member := some (mcastAddr, localaddr) }

/-- `mcast_set_ttl`. -/
def mcastSetTtl (d : McastTable) (fd family ttl : Int) (succeeds : Bool) : Int × McastTable :=
  setOption d fd family succeeds fun s => { s with ttl := ttl }

/-- `mcast_set_loop`. -/
def mcastSetLoop (d : McastTable) (fd family flag : Int) (succeeds : Bool) : Int × McastTable :=
  setOption d fd family succeeds fun s => { s with loop := flag }

/-! ## The beginning of the two programs -/

/-- An address that is looked up: what the resolver finds, and a descriptor for each candidate. -/
structure Lookup where
  found : Option (List Addr)
  sockets : List Int
  deriving DecidableEq, Repr

/-- The answers on the way into the group. `local_ip` may not be given. -/
structure JoinAnswers where
  group : Lookup
  localIp : Option Lookup
  listen : Option (List Addr)
  listens : List ListenAnswers
  joins : Bool
  setsTtl : Bool
  setsLoop : Bool
  deriving DecidableEq, Repr

/-- What `grp_addr` and `local_addr` hold when `main` begins. A server does not clear them. -/
structure Storage where
  grpAddr : Addr
  localAddr : Addr
  deriving DecidableEq, Repr

/-- After `memset`, that is `AF_UNSPEC`. -/
def Addr.cleared : Addr where
  family := 0
  host := []

/-- A client begins with this. -/
def Storage.cleared : Storage where
  grpAddr := .cleared
  localAddr := .cleared

inductive Opening where
  /-- `main` returns. -/
  | failed (rc : Int) (d : McastTable)
  /-- It has its socket. -/
  | opened (sockfd : Int) (grpAddr : Addr) (localAddr : Option Addr) (d : McastTable)

/-- The socket, the group and the local address. -/
def Opening.socket : Opening → Option (Int × Addr × Option Addr)
  | .failed _ _ => none
  | .opened sockfd grpAddr localAddr _ => some (sockfd, grpAddr, localAddr)

/--
`if (local_ip) rc = mcast_get_addr(local_ip, NULL, &local_addr)`, and the `localaddr` of
`mcast_join_group`.
-/
def lookupLocal (d : McastTable) (localAddr : Addr) :
    Option Lookup → Option (Int × Option Addr × McastTable)
  | none => some (0, none, d)
  | some l =>
    (mcastGetAddr d localAddr l.found l.sockets).map fun (rc, addr, d) => (rc, some addr, d)

/-- `if (rc != 0) { close(sockfd); return rc; }` behind one of the calls, and what follows. -/
def orClose (sockfd : Int) (r : Int × McastTable) (next : McastTable → Opening) : Opening :=
  if r.1 ≠ 0 then .failed r.1 (r.2.closed sockfd) else next r.2

/-- From `mcast_listen` to `mcast_set_loop`. -/
def openSocket (d : McastTable) (grpAddr : Addr) (localAddr : Option Addr) (a : JoinAnswers) :
    Option Opening :=
  match mcastListen d grpAddr.family a.listen a.listens with
  | none => none
  | some (sockfd, d) =>
    if sockfd < 0 then some (.failed (-1) d)
    else
      some <| orClose sockfd (mcastJoinGroup d sockfd grpAddr localAddr a.joins) fun d =>
        orClose sockfd (mcastSetTtl d sockfd grpAddr.family 1 a.setsTtl) fun d =>
          orClose sockfd (mcastSetLoop d sockfd grpAddr.family 0 a.setsLoop) fun d =>
            .opened sockfd grpAddr localAddr d

/-- `main` of both programs, down to the first datagram. -/
def openGroup (d : McastTable) (s : Storage) (a : JoinAnswers) : Option Opening :=
  match mcastGetAddr d s.grpAddr a.group.found a.group.sockets with
  | none => none
  | some (rc, grpAddr, d) =>
    if rc ≠ 0 then some (.failed rc d)
    else
      match lookupLocal d s.localAddr a.localIp with
      | none => none
      | some (rc, localAddr, d) =>
        if rc ≠ 0 then some (.failed rc d) else openSocket d grpAddr localAddr a

/-! ## The client -/

/-- What `printf("%s")` shows of `mem`. `none`: it reads on behind the end. -/
def cText (mem : List UInt8) : Option (List UInt8) :=
  if 0 ∈ mem then some (mem.takeWhile fun b => b ≠ 0) else none

/-- `sizeof(timeStr)` and `sizeof(b)`. -/
def bufferLen : Nat := 256

/-- `timeStr` of the client, which is cleared, after `recvfrom`. -/
def timeStrWith (datagram : List UInt8) : List UInt8 :=
  datagram.take bufferLen ++ List.replicate (bufferLen - (datagram.take bufferLen).length) 0

/--
`main` of `mcast_client.c`: the result, what it prints if it comes to that, and what is open.
`sends` says whether `sendto` succeeds, and `recv` what `recvfrom` has.
-/
def mcastClient (d : McastTable) (a : JoinAnswers) (sends : Bool) (recv : Option (List UInt8)) :
    Option (Int × Option (Option (List UInt8)) × McastTable) :=
  match openGroup d .cleared a with
  | none => none
  | some (.failed rc d) => some (rc, none, d)
  | some (.opened sockfd _ _ d) =>
    if sends then
      match recv with
      | none => some (-1, none, d.closed sockfd)
      | some datagram => some (0, some (cText (timeStrWith datagram)), d.closed sockfd)
    else some (-1, none, d.closed sockfd)

/-! ## What is open -/

variable {d d' : McastTable} {fd : Int}

/-- The loop of `mcast_listen` opens the socket that it returns, bound, and nothing else. -/
theorem mcastListenLoop_cases {family : Int} {res : List Addr} {as : List ListenAnswers}
    (h : mcastListenLoop family d res as = some (fd, d')) :
    (fd = -1 ∧ d' = d) ∨ (0 ≤ fd ∧ ∃ ai ∈ res, ai.family = family ∧
      d.opened fd { McastFile.new with bound := some ai } = some d') := by
  induction res generalizing as with
  | nil =>
    cases h
    exact Or.inl ⟨rfl, rfl⟩
  | cons ai res ih =>
    have hnext : ∀ {as : List ListenAnswers}, mcastListenLoop family d res as = some (fd, d') →
        (fd = -1 ∧ d' = d) ∨ (0 ≤ fd ∧ ∃ x ∈ ai :: res, x.family = family ∧
          d.opened fd { McastFile.new with bound := some x } = some d') := by
      intro as h
      rcases ih h with hnone | ⟨hpos, x, hx, hfam, hopen⟩
      · exact Or.inl hnone
      · exact Or.inr ⟨hpos, x, List.mem_cons_of_mem _ hx, hfam, hopen⟩
    cases as with
    | nil => cases h
    | cons a as =>
      unfold mcastListenLoop at h
      split at h
      · next hpos =>
        split at h
        · cases h
        · next d₁ hopen =>
          split at h
          · next hbound =>
            have hready := opened_changed hopen fun s => { s with bound := some ai }
            cases h
            exact Or.inr ⟨hpos, ai, List.mem_cons_self, hbound.1, hready⟩
          · rw [closed_opened hopen] at h
            exact hnext h
      · next hneg =>
        rw [closed_of_none (file_neg d (by omega))] at h
        exact hnext h

theorem mcastListen_cases {family : Int} {res : Option (List Addr)} {as : List ListenAnswers}
    (h : mcastListen d family res as = some (fd, d')) :
    (fd = -1 ∧ d' = d) ∨ (0 ≤ fd ∧ ∃ ai : Addr, ai.family = family ∧
      d.opened fd { McastFile.new with bound := some ai } = some d') := by
  cases res with
  | none =>
    cases h
    exact Or.inl ⟨rfl, rfl⟩
  | some res =>
    rcases mcastListenLoop_cases h with hnone | ⟨hpos, ai, -, hfam, hopen⟩
    · exact Or.inl hnone
    · exact Or.inr ⟨hpos, ai, hfam, hopen⟩

/-- The first candidate that gets a socket, or else what was there before. -/
def Lookup.address (l : Lookup) (addr : Addr) : Addr :=
  match (((l.found.getD []).zip l.sockets).find? fun p => decide (0 ≤ p.2)) with
  | some p => p.1
  | none => addr

/-- The loop of `mcast_get_addr` leaves nothing open. -/
theorem mcastGetAddrLoop_eq {addr addr' : Addr} {res : List Addr} {as : List Int}
    (h : mcastGetAddrLoop d addr res as = some (addr', d')) :
    addr' = Lookup.address ⟨some res, as⟩ addr ∧ d' = d := by
  induction res generalizing as with
  | nil =>
    cases h
    exact ⟨rfl, rfl⟩
  | cons ai res ih =>
    cases as with
    | nil => cases h
    | cons sockfd as =>
      unfold mcastGetAddrLoop at h
      split at h
      · next hneg =>
        obtain ⟨haddr, hd⟩ := ih h
        refine ⟨haddr.trans ?_, hd⟩
        simp [Lookup.address, Int.not_le.mpr hneg]
      · next hpos =>
        split at h
        · cases h
        · next d₁ hopen =>
          cases h
          refine ⟨?_, closed_opened hopen⟩
          simp [Lookup.address, Int.not_lt.mp hpos]

/-- `mcast_get_addr` fails with `getaddrinfo`, and only then. -/
theorem mcastGetAddr_eq {addr addr' : Addr} {l : Lookup} {rc : Int}
    (h : mcastGetAddr d addr l.found l.sockets = some (rc, addr', d')) :
    d' = d ∧ rc = (if l.found = none then -1 else 0) ∧ addr' = l.address addr := by
  obtain ⟨found, sockets⟩ := l
  cases found with
  | none =>
    cases h
    exact ⟨rfl, rfl, rfl⟩
  | some res =>
    obtain ⟨r, hr, heq⟩ := Option.map_eq_some_iff.mp h
    cases heq
    obtain ⟨haddr, hd⟩ := mcastGetAddrLoop_eq hr
    exact ⟨hd, rfl, haddr⟩

theorem lookupLocal_eq {addr : Addr} {l : Option Lookup} {rc : Int} {localAddr : Option Addr}
    (h : lookupLocal d addr l = some (rc, localAddr, d')) :
    d' = d ∧ (rc = 0 ∨ rc = -1) ∧ localAddr = l.map fun l => l.address addr := by
  cases l with
  | none =>
    cases h
    exact ⟨rfl, Or.inl rfl, rfl⟩
  | some l =>
    obtain ⟨⟨rc₁, addr₁, d₁⟩, hr, heq⟩ := Option.map_eq_some_iff.mp h
    cases heq
    obtain ⟨hd, hrc, rfl⟩ := mcastGetAddr_eq hr
    refine ⟨hd, ?_, rfl⟩
    split at hrc
    · exact Or.inr hrc
    · exact Or.inl hrc

/-- A socket that is bound to `ai`, as it is when the first datagram is sent. -/
def readyFile (ai grpAddr : Addr) (localAddr : Option Addr) : McastFile :=
  if HasOptions grpAddr.family then
    { bound := some ai, member := some (grpAddr, localAddr), ttl := 1, loop := 0 }
  else { McastFile.new with bound := some ai }

/-- The way into the group: either everything is closed again, or the socket is ready. -/
def Opening.Exact (d : McastTable) (grp : Addr) (loc : Option Addr) : Opening → Prop
  | .failed rc d' => rc = -1 ∧ d' = d
  | .opened fd grpAddr localAddr d' =>
    grpAddr = grp ∧ localAddr = loc ∧ ∃ ai : Addr, ai.family = grp.family ∧
      d.opened fd (readyFile ai grp loc) = some d'

variable {grp : Addr} {loc : Option Addr}

/-- An option is set, or there is none for the family, or the socket is closed again. -/
theorem orClose_exact {family : Int} {f : McastFile} {succeeds : Bool}
    {g : McastFile → McastFile} {next : McastTable → Opening} (h : d.opened fd f = some d')
    (hnext : ∀ d₁, d.opened fd (if HasOptions family then g f else f) = some d₁ →
      (next d₁).Exact d grp loc) :
    (orClose fd (setOption d' fd family succeeds g) next).Exact d grp loc := by
  unfold setOption
  by_cases hfam : HasOptions family
  · rw [if_pos hfam] at hnext ⊢
    cases succeeds with
    | true => exact hnext _ (opened_changed h g)
    | false => exact ⟨rfl, closed_opened h⟩
  · rw [if_neg hfam] at hnext ⊢
    exact hnext _ h

theorem openSocket_exact {a : JoinAnswers} {r : Opening} (h : openSocket d grp loc a = some r) :
    r.Exact d grp loc := by
  unfold openSocket at h
  split at h
  · cases h
  · next sockfd d₁ hlisten =>
    rcases mcastListen_cases hlisten with ⟨rfl, rfl⟩ | ⟨hpos, ai, hfam, hopen⟩
    · cases h
      exact ⟨rfl, rfl⟩
    · rw [if_neg (by omega)] at h
      cases h
      refine orClose_exact hopen fun d₂ hjoined => ?_
      refine orClose_exact hjoined fun d₃ hset => ?_
      refine orClose_exact hset fun d₄ hdone => ⟨rfl, rfl, ai, hfam, ?_⟩
      rw [← hdone, readyFile]
      by_cases hopt : HasOptions grp.family
      · simp only [if_pos hopt]
      · simp only [if_neg hopt]

theorem openGroup_exact {s : Storage} {a : JoinAnswers} {r : Opening}
    (h : openGroup d s a = some r) :
    r.Exact d (a.group.address s.grpAddr) (a.localIp.map fun l => l.address s.localAddr) := by
  unfold openGroup at h
  split at h
  · cases h
  · next rc grpAddr d₁ haddr =>
    obtain ⟨rfl, hrc, rfl⟩ := mcastGetAddr_eq haddr
    split at h
    · next hne =>
      cases h
      refine ⟨?_, rfl⟩
      split at hrc
      · exact hrc
      · exact absurd hrc hne
    · split at h
      · cases h
      · next rc₂ localAddr d₂ hlocal =>
        obtain ⟨rfl, hrc₂, rfl⟩ := lookupLocal_eq hlocal
        split at h
        · next hne =>
          cases h
          exact ⟨hrc₂.resolve_left hne, rfl⟩
        · exact openSocket_exact h

/-- The client has closed what it opened, whatever happened, and says whether it printed. -/
theorem mcastClient_exact {a : JoinAnswers} {sends : Bool} {recv : Option (List UInt8)} {rc : Int}
    {out : Option (Option (List UInt8))} (h : mcastClient d a sends recv = some (rc, out, d')) :
    d' = d ∧ ((rc = 0 ∧ out ≠ none) ∨ (rc = -1 ∧ out = none)) := by
  unfold mcastClient at h
  split at h
  · cases h
  · next rc₁ d₁ hopen =>
    cases h
    obtain ⟨hrc, hd⟩ := openGroup_exact hopen
    exact ⟨hd, Or.inr ⟨hrc, rfl⟩⟩
  · next sockfd _ _ d₁ hopen =>
    obtain ⟨-, -, ai, -, hopened⟩ := openGroup_exact hopen
    have hclosed := closed_opened hopened
    split at h
    · split at h
      · cases h
        exact ⟨hclosed, Or.inr ⟨rfl, rfl⟩⟩
      · cases h
        exact ⟨hclosed, Or.inl ⟨rfl, Option.some_ne_none _⟩⟩
    · cases h
      exact ⟨hclosed, Or.inr ⟨rfl, rfl⟩⟩

/--
**The way into a group leaves one socket, ready, or nothing.**

Whatever the resolver finds, whichever calls fail and whatever is in the memory before: either
`main` returns `-1` and has closed all that it opened, or it has opened one socket, which is bound
to an address of the family of the group. If the family has options, that socket is a member of the
group and does not get its own datagrams back, and if not it is no member. The addresses of the
group and of the host are the first ones found that get a socket; if none does, the program goes on
with what the memory held. The client leaves nothing open on any path, and returns 0 exactly when
it has printed.
-/
theorem openGroup_descriptors (d : McastTable) (s : Storage) (a : JoinAnswers) (r : Opening)
    (h : openGroup d s a = some r) :
    r.Exact d (a.group.address s.grpAddr) (a.localIp.map fun l => l.address s.localAddr) ∧
      (s = .cleared → ∀ sends recv, ∃ rc out, mcastClient d a sends recv = some (rc, out, d) ∧
        (rc = 0 ↔ out ≠ none)) := by
  refine ⟨openGroup_exact h, ?_⟩
  rintro rfl sends recv
  have hsome : ∃ rc out d', mcastClient d a sends recv = some (rc, out, d') := by
    unfold mcastClient
    rw [h]
    cases r with
    | failed rc d' => exact ⟨_, _, _, rfl⟩
    | opened sockfd grpAddr localAddr d' =>
      cases sends with
      | true =>
        cases recv with
        | none => exact ⟨_, _, _, rfl⟩
        | some datagram => exact ⟨_, _, _, rfl⟩
      | false => exact ⟨_, _, _, rfl⟩
  obtain ⟨rc, out, d', hclient⟩ := hsome
  obtain ⟨rfl, hrc⟩ := mcastClient_exact hclient
  refine ⟨rc, out, hclient, ?_⟩
  rcases hrc with ⟨rfl, hout⟩ | ⟨rfl, hout⟩
  · exact iff_of_true rfl hout
  · exact iff_of_false (by decide) (not_not_intro hout)

/-- `FF01::1111` -/
def sampleGroup : Addr := ⟨AF_INET6, [0xFF, 0x01] ++ List.replicate 12 0 ++ [0x11, 0x11]⟩

/-- An address of the host. -/
def sampleHost : Addr := ⟨AF_INET6, List.replicate 15 0 ++ [1]⟩

/-- The first address cannot be bound. -/
def sampleJoin : JoinAnswers where
  group := ⟨some [sampleGroup], [3]⟩
  localIp := none
  listen := some [⟨AF_INET6, List.replicate 16 0⟩, sampleHost]
  listens := [⟨3, false⟩, ⟨3, true⟩]
  joins := true
  setsTtl := true
  setsLoop := true

theorem sampleJoin_ready : ∃ d',
    openGroup .empty .cleared sampleJoin = some (.opened 3 sampleGroup none d') ∧
      (∃ ai : Addr, ai.family = AF_INET6 ∧
        Table.empty.opened 3 (readyFile ai sampleGroup none) = some d') ∧
      ∀ sends recv, ∃ rc out, mcastClient .empty sampleJoin sends recv = some (rc, out, .empty) ∧
        (rc = 0 ↔ out ≠ none) := by
  obtain ⟨r, hr⟩ := Option.isSome_iff_exists.mp
    (show (openGroup .empty .cleared sampleJoin).isSome by decide +kernel)
  have hsocket : (openGroup .empty .cleared sampleJoin).map Opening.socket
      = some (some (3, sampleGroup, none)) := by decide +kernel
  obtain ⟨hexact, hclient⟩ := openGroup_descriptors .empty .cleared sampleJoin r hr
  rw [hr] at hsocket
  cases r with
  | failed rc d' => cases hsocket
  | opened sockfd grpAddr localAddr d' =>
    cases hsocket
    obtain ⟨-, -, hready⟩ := hexact
    exact ⟨d', hr, hready, hclient rfl⟩

/-- The local address gets no socket, and the program joins with the cleared one. -/
example : (openGroup .empty .cleared
    { sampleJoin with localIp := some ⟨some [sampleHost], [-1]⟩ }).map Opening.socket
      = some (some (3, sampleGroup, some .cleared)) := by decide +kernel

end Nwchecker.Mcast
