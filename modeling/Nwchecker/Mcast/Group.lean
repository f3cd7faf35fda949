import Nwchecker.Lib.Machine
import Nwchecker.Mcast.Setup

/-!
# The time in a multicast group

`mcast_server.c` and `mcast_client.c` in one group, each on a host of its own, since the port is
bound without `SO_REUSEADDR`. All send to the group, the servers too, and the network brings a
datagram to each member any number of times or never, in any order.

A server answers whatever it receives, with 256 bytes, and puts a zero behind the bytes that it
received, in an array of 256. `inBounds_iff` says in which groups that goes well.
-/

namespace Nwchecker.Mcast

open Descriptors Machine

inductive Role where
  | client
  | server
  deriving DecidableEq, Repr

/-- What `ctime` returns, without the zero at its end. -/
structure CtimeText where
  bytes : List UInt8
  length_eq : bytes.length = 25
  noZero : 0 ∉ bytes

/-- `letter = '1'`, the datagram of a client. -/
def letterBytes : List UInt8 := [0x31]

/-- `timeStr` of the server, which is sent as a whole. -/
def serverTimeStr (text : CtimeText) : List UInt8 :=
  text.bytes ++ List.replicate (bufferLen - text.bytes.length) 0

inductive Fate where
  /-- A client in front of `sendto`. -/
  | ready
  /-- In `recvfrom`. A server is there, or will be. -/
  | receiving
  /-- A client that has returned. -/
  | left (rc : Int)
  /-- It has written or read outside of its array. -/
  | wild
  deriving DecidableEq, Repr

/-- One of the programs, with its socket. -/
structure Party where
  role : Role
  sock : McastFile
  fate : Fate
  /-- What it has printed of the datagrams, each with its number. -/
  shown : List (Nat × List UInt8)
  deriving DecidableEq, Repr

/-- A datagram for the group. -/
structure Datagram where
  sender : Nat
  bytes : List UInt8
  deriving DecidableEq, Repr

/-- The programs that run with the group `addr`, and all that was sent to it. -/
structure Group where
  addr : Addr
  parties : List Party
  sent : List Datagram
  deriving DecidableEq, Repr

namespace Group

/-- A program when it is in the group. -/
def startParty (m : Role × McastFile) : Party where
  role := m.1
  sock := m.2
  fate := match m.1 with
    | .client => .ready
    | .server => .receiving
  shown := []

def start (addr : Addr) (members : List (Role × McastFile)) : Group where
  addr := addr
  parties := members.map startParty
  sent := []

inductive Event where
  /-- The client `i` calls `sendto`. -/
  | request (i : Nat) (sends : Bool)
  /-- The datagram `k` comes to `i`. A server then reads the clock and calls `sendto`. -/
  | deliver (k i : Nat) (text : CtimeText) (sends : Bool)
  /-- `recvfrom` fails. -/
  | fails (i : Nat)

/-- A member gets what the others send, and its own datagrams if `loop` is set. -/
def Reaches (addr : Addr) (x : Datagram) (i : Nat) (p : Party) : Prop :=
  p.sock.member.map Prod.fst = some addr ∧ (i = x.sender → p.sock.loop ≠ 0)

instance (addr : Addr) (x : Datagram) (i : Nat) (p : Party) : Decidable (Reaches addr x i p) :=
  inferInstanceAs (Decidable (_ ∧ _))

/-- `printf("%s\n", timeStr); close(sockfd); return 0;` -/
def clientRecv (p : Party) (k : Nat) (bytes : List UInt8) : Party :=
  match cText (timeStrWith bytes) with
  | some text => { p with fate := .left 0, shown := p.shown ++ [(k, text)] }
  | none => { p with fate := .wild }

/-- `b[rc] = '\0'` and what is printed then. `none`: `b[rc]` is behind the end. -/
def serverShows (bytes : List UInt8) : Option (List UInt8) :=
  let data := bytes.take bufferLen
  if data.length < bufferLen then some (data.takeWhile fun b => b ≠ 0) else none

def setParty (g : Group) (i : Nat) (p : Party) : Group :=
  { g with parties := g.parties.set i p }

def send (g : Group) (sender : Nat) (sends : Bool) (bytes : List UInt8) : Group :=
  { g with sent := if sends then g.sent ++ [⟨sender, bytes⟩] else g.sent }

def step (g : Group) : Event → Option Group
  | .request i sends =>
    match g.parties[i]? with
    | some p =>
      if p.role = .client ∧ p.fate = .ready then
        some ((g.send i sends letterBytes).setParty i
          { p with fate := if sends then .receiving else .left (-1) })
      else none
    | none => none
  | .deliver k i text sends =>
    match g.sent[k]?, g.parties[i]? with
    | some x, some p =>
      if p.fate = .receiving ∧ Reaches g.addr x i p then
        match p.role with
        | .client => some (g.setParty i (clientRecv p k x.bytes))
        | .server =>
          match serverShows x.bytes with
          | none => some (g.setParty i { p with fate := .wild })
          | some shown =>
            some ((g.send i sends (serverTimeStr text)).setParty i
              { p with shown := p.shown ++ [(k, shown)] })
      else none
    | _, _ => none
  | .fails i =>
    match g.parties[i]? with
    | some p =>
      if p.fate = .receiving then
        match p.role with
        | .client => some (g.setParty i { p with fate := .left (-1) })
        -- `if (rc < 0) continue`
        | .server => some g
      else none
    | none => none

/-! ## The texts -/

theorem serverTimeStr_length (text : CtimeText) : (serverTimeStr text).length = bufferLen := by
  rw [serverTimeStr, List.length_append, List.length_replicate, text.length_eq]
  rfl

/-- The text in front of a zero is what is printed. -/
theorem cText_append {l rest : List UInt8} (h : 0 ∉ l) : cText (l ++ 0 :: rest) = some l := by
  have hin : (0 : UInt8) ∈ l ++ 0 :: rest := List.mem_append_right _ List.mem_cons_self
  have hall : ∀ b ∈ l, decide (b ≠ 0) = true := by
    intro b hb
    rw [decide_eq_true_iff]
    rintro rfl
    exact h hb
  rw [cText, if_pos hin, List.takeWhile_append_of_pos hall]
  simp

/-- A client prints the time that a server sent. -/
theorem cText_time (text : CtimeText) :
    cText (timeStrWith (serverTimeStr text)) = some text.bytes := by
  have hall : (serverTimeStr text).take bufferLen = serverTimeStr text :=
    List.take_of_length_le (Nat.le_of_eq (serverTimeStr_length text))
  rw [timeStrWith, hall, serverTimeStr_length, Nat.sub_self, List.replicate_zero, List.append_nil,
    serverTimeStr, text.length_eq]
  exact cText_append text.noZero

/-- It prints the letter of another client. -/
theorem cText_letter : cText (timeStrWith letterBytes) = some letterBytes :=
  cText_append (l := letterBytes) (by decide)

/-- A server has no room for the datagram of another. -/
theorem serverShows_time (text : CtimeText) : serverShows (serverTimeStr text) = none := by
  have hall : ((serverTimeStr text).take bufferLen).length = bufferLen := by
    rw [List.length_take, serverTimeStr_length, Nat.min_self]
  rw [serverShows, if_neg (by omega)]

theorem serverShows_letter : serverShows letterBytes = some letterBytes := by decide

/-! ## Groups that go wrong -/

/-- The socket is one with which a program has come into the group. -/
def Joined (addr : Addr) (sock : McastFile) : Prop :=
  ∃ d s a fd localAddr d', openGroup d s a = some (.opened fd addr localAddr d') ∧
    d'.file fd = some sock

/-- The program that runs as number `i`. -/
def roleOf (members : List (Role × McastFile)) (i : Nat) : Option Role := members[i]?.map Prod.fst

/--
Somebody asks, one server answers, and another server hears the answer. For that the family of the
group must have options, or else nobody is a member.
-/
structure Crossed (addr : Addr) (members : List (Role × McastFile)) : Prop where
  options : HasOptions addr.family
  client : ∃ k, roleOf members k = some .client
  servers : ∃ i j, i ≠ j ∧ roleOf members i = some .server ∧ roleOf members j = some .server

variable {addr : Addr} {members : List (Role × McastFile)}

theorem Joined.eq_ready {sock : McastFile} (h : Joined addr sock) :
    ∃ ai localAddr, sock = readyFile ai addr localAddr := by
  obtain ⟨d, s, a, fd, localAddr, d', hopen, hfile⟩ := h
  obtain ⟨rfl, rfl, ai, -, hopened⟩ := openGroup_exact hopen
  obtain ⟨-, -, hself, -⟩ := Table.opened_cases hopened
  rw [hself] at hfile
  exact ⟨ai, _, (Option.some.inj hfile).symm⟩

/-- Who is in the group gets the datagrams of the others, and of nobody else. -/
theorem Joined.reaches_iff {p : Party} (h : Joined addr p.sock) (x : Datagram) (i : Nat) :
    Reaches addr x i p ↔ HasOptions addr.family ∧ i ≠ x.sender := by
  obtain ⟨ai, localAddr, hsock⟩ := h.eq_ready
  unfold Reaches
  rw [hsock, readyFile]
  by_cases hopt : HasOptions addr.family
  · simp [hopt]
  · simp [hopt, McastFile.new]

/-! ## The invariant -/

/-- Who sends what. -/
def SentBy (members : List (Role × McastFile)) (x : Datagram) : Prop :=
  (x.bytes = letterBytes ∧ roleOf members x.sender = some .client) ∨
    ((∃ text, x.bytes = serverTimeStr text) ∧ roleOf members x.sender = some .server)

/--
The text `t`, which the party `i` prints of the datagram `k`, is that of another one: the letter of
a client, or, if `i` is a client itself, the time of a server.
-/
def Heard (members : List (Role × McastFile)) (sent : List Datagram) (i : Nat) (role : Role)
    (k : Nat) (t : List UInt8) : Prop :=
  ∃ x, sent[k]? = some x ∧ x.sender ≠ i ∧
    ((roleOf members x.sender = some .client ∧ x.bytes = letterBytes ∧ t = letterBytes) ∨
      (role = .client ∧ roleOf members x.sender = some .server ∧
        ∃ text, x.bytes = serverTimeStr text ∧ t = text.bytes))

/-- What a party can have come to. -/
structure PartyOk (addr : Addr) (members : List (Role × McastFile)) (sent : List Datagram)
    (i : Nat) (p : Party) : Prop where
  member : members[i]? = some (p.role, p.sock)
  shown : ∀ y ∈ p.shown, Heard members sent i p.role y.1 y.2
  wild : p.fate = .wild → p.role = .server ∧ Crossed addr members

variable {sent sent' : List Datagram}

theorem PartyOk.role_eq {i : Nat} {p : Party} (h : PartyOk addr members sent i p) :
    roleOf members i = some p.role := by
  rw [roleOf, h.member]
  rfl

/-- What was sent stays so. -/
theorem PartyOk.mono {i : Nat} {p : Party} (h : PartyOk addr members sent i p)
    (hpre : sent <+: sent') : PartyOk addr members sent' i p where
  member := h.member
  shown := by
    intro y hy
    obtain ⟨x, hx, hfrom⟩ := h.shown y hy
    obtain ⟨hlt, rfl⟩ := List.getElem?_eq_some_iff.mp hx
    exact ⟨_, List.prefix_iff_getElem?.mp hpre y.1 hlt, hfrom⟩
  wild := h.wild

/-- One text more, and the party goes on, or it has left. -/
theorem PartyOk.show {i k : Nat} {p : Party} {t : List UInt8} {fate : Fate}
    (h : PartyOk addr members sent i p) (ht : Heard members sent i p.role k t)
    (hfate : fate ≠ .wild) :
    PartyOk addr members sent i { p with fate := fate, shown := p.shown ++ [(k, t)] } where
  member := h.member
  shown := by
    intro y hy
    rcases List.mem_append.mp hy with hy | hy
    · exact h.shown y hy
    · rw [List.mem_singleton.mp hy]
      exact ht
  wild := fun hwild => absurd hwild hfate

structure Inv (addr : Addr) (members : List (Role × McastFile)) (g : Group) : Prop where
  addr_eq : g.addr = addr
  parties : ∀ i p, g.parties[i]? = some p → PartyOk addr members g.sent i p
  sent : ∀ x ∈ g.sent, SentBy members x
  asked : g.sent ≠ [] → ∃ k, roleOf members k = some .client

variable {g g' : Group}

theorem sent_kept (g : Group) (i : Nat) (sends : Bool) (bytes : List UInt8) :
    g.sent <+: (g.send i sends bytes).sent := by
  show g.sent <+: if sends then g.sent ++ [⟨i, bytes⟩] else g.sent
  split
  · exact List.prefix_append ..
  · exact List.prefix_rfl

theorem Inv.setParty (h : g.Inv addr members) {i : Nat} {p : Party}
    (hp : PartyOk addr members g.sent i p) : (g.setParty i p).Inv addr members where
  addr_eq := h.addr_eq
  parties := by
    intro j q hq
    have hq' : (g.parties.set i p)[j]? = some q := hq
    rw [List.getElem?_set] at hq'
    split at hq'
    · next hij =>
      split at hq'
      · cases hq'
        exact hij ▸ hp
      · cases hq'
    · exact h.parties j q hq'
  sent := h.sent
  asked := h.asked

theorem Inv.send (h : g.Inv addr members) {i : Nat} {sends : Bool} {bytes : List UInt8}
    (hsent : SentBy members ⟨i, bytes⟩) (hasked : ∃ k, roleOf members k = some .client) :
    (g.send i sends bytes).Inv addr members where
  addr_eq := h.addr_eq
  parties := fun j p hp => (h.parties j p hp).mono (sent_kept g i sends bytes)
  sent := by
    intro x hx
    have hx' : x ∈ if sends then g.sent ++ [⟨i, bytes⟩] else g.sent := hx
    split at hx'
    · rcases List.mem_append.mp hx' with hx' | hx'
      · exact h.sent x hx'
      · rw [List.mem_singleton.mp hx']
        exact hsent
    · exact h.sent x hx'
  asked := fun _ => hasked

/-- A client prints the letter or a time of another, and stays inside its array. -/
theorem clientRecv_ok {i k : Nat} {p : Party} (hp : PartyOk addr members sent i p)
    (hrole : p.role = .client) {x : Datagram} (hk : sent[k]? = some x) (hne : x.sender ≠ i)
    (hx : SentBy members x) : PartyOk addr members sent i (clientRecv p k x.bytes) := by
  unfold clientRecv
  rcases hx with ⟨hbytes, hsender⟩ | ⟨⟨text, hbytes⟩, hsender⟩
  · rw [hbytes, cText_letter]
    exact hp.show ⟨x, hk, hne, Or.inl ⟨hsender, hbytes, rfl⟩⟩ (by simp)
  · rw [hbytes, cText_time]
    exact hp.show ⟨x, hk, hne, Or.inr ⟨hrole, hsender, text, hbytes, rfl⟩⟩ (by simp)

section Events

variable {i k : Nat} {p : Party} {x : Datagram} {sends : Bool}

/-- A client asks, or has failed to. -/
theorem Inv.request (h : g.Inv addr members) (hp : g.parties[i]? = some p)
    (hrole : p.role = .client) : ((g.send i sends letterBytes).setParty i
      { p with fate := if sends then .receiving else .left (-1) }).Inv addr members := by
  have hok := (h.parties i p hp).mono (sent_kept g i sends letterBytes)
  have hclient := hrole ▸ hok.role_eq
  refine (h.send (Or.inl ⟨rfl, hclient⟩) ⟨i, hclient⟩).setParty ?_
  refine ⟨hok.member, hok.shown, fun hwild => ?_⟩
  cases sends with
  | true => cases hwild
  | false => cases hwild

/-- A server answers the letter of a client. -/
theorem Inv.answer (h : g.Inv addr members) (hp : g.parties[i]? = some p)
    (hrole : p.role = .server) (hfate : p.fate = .receiving) (hk : g.sent[k]? = some x)
    (hne : x.sender ≠ i) (hbytes : x.bytes = letterBytes)
    (hsender : roleOf members x.sender = some .client) (text : CtimeText) :
    ((g.send i sends (serverTimeStr text)).setParty i
      { p with shown := p.shown ++ [(k, letterBytes)] }).Inv addr members := by
  have hok := h.parties i p hp
  have hserver := hrole ▸ hok.role_eq
  have hasked := h.asked (List.ne_nil_of_mem (List.mem_of_getElem? hk))
  have hheard : Heard members g.sent i p.role k letterBytes :=
    ⟨x, hk, hne, Or.inl ⟨hsender, hbytes, rfl⟩⟩
  have hreceiving : p.fate ≠ .wild := by simp [hfate]
  exact (h.send (Or.inr ⟨⟨text, rfl⟩, hserver⟩) hasked).setParty
    ((hok.show hheard hreceiving).mono (sent_kept g i sends (serverTimeStr text)))

/-- A server hears the answer of another one. -/
theorem Inv.overrun (h : g.Inv addr members) (hp : g.parties[i]? = some p)
    (hrole : p.role = .server) (hx : x ∈ g.sent) (hopt : HasOptions addr.family)
    (hne : x.sender ≠ i) (hsender : roleOf members x.sender = some .server) :
    (g.setParty i { p with fate := .wild }).Inv addr members := by
  have hok := h.parties i p hp
  have hserver := hrole ▸ hok.role_eq
  have hcrossed : Crossed addr members :=
    ⟨hopt, h.asked (List.ne_nil_of_mem hx), i, x.sender, Ne.symm hne, hserver, hsender⟩
  exact h.setParty ⟨hok.member, hok.shown, fun _ => ⟨hrole, hcrossed⟩⟩

end Events

theorem Inv.step (hjoined : ∀ m ∈ members, Joined addr m.2) (h : g.Inv addr members) {e : Event}
    (hstep : g.step e = some g') : g'.Inv addr members := by
  cases e with
  | request i sends =>
    simp only [Group.step] at hstep
    split at hstep
    · next p hp =>
      split at hstep
      · next hready =>
        cases hstep
        exact h.request hp hready.1
      · cases hstep
    · cases hstep
  | deliver k i text sends =>
    simp only [Group.step] at hstep
    split at hstep
    · next x p hk hp =>
      have hok := h.parties i p hp
      have hx := List.mem_of_getElem? hk
      split at hstep
      · next hreach =>
        rw [h.addr_eq] at hreach
        obtain ⟨hopt, hother⟩ :=
          ((hjoined _ (List.mem_of_getElem? hok.member)).reaches_iff x i).mp hreach.2
        have hne : x.sender ≠ i := Ne.symm hother
        split at hstep
        · next hrole =>
          cases hstep
          exact h.setParty (clientRecv_ok hok hrole hk hne (h.sent x hx))
        · next hrole =>
          rcases h.sent x hx with ⟨hbytes, hsender⟩ | ⟨⟨t, hbytes⟩, hsender⟩
          · rw [hbytes, serverShows_letter] at hstep
            cases hstep
            exact h.answer hp hrole hreach.1 hk hne hbytes hsender text
          · rw [hbytes, serverShows_time] at hstep
            cases hstep
            exact h.overrun hp hrole hx hopt hne hsender
      · cases hstep
    · cases hstep
  | fails i =>
    simp only [Group.step] at hstep
    split at hstep
    · next p hp =>
      split at hstep
      · have hok := h.parties i p hp
        split at hstep
        · cases hstep
          exact h.setParty ⟨hok.member, hok.shown, fun hwild => by cases hwild⟩
        · cases hstep
          exact h
      · cases hstep
    · cases hstep

theorem start_inv (addr : Addr) (members : List (Role × McastFile)) :
    (start addr members).Inv addr members where
  addr_eq := rfl
  parties := by
    intro i p hp
    obtain ⟨m, hm, rfl⟩ := Option.map_eq_some_iff.mp ((List.getElem?_map ..).symm.trans hp)
    refine ⟨hm, fun _ ht => absurd ht List.not_mem_nil, fun hwild => ?_⟩
    obtain ⟨role, sock⟩ := m
    cases role with
    | client => cases hwild
    | server => cases hwild
  sent := fun _ hx => absurd hx List.not_mem_nil
  asked := fun hne => absurd rfl hne

/-! ## The run that goes wrong -/

variable {i k : Nat} {p : Party} {x : Datagram} {text : CtimeText}

theorem step_request (hp : g.parties[i]? = some p) (hrole : p.role = .client)
    (hfate : p.fate = .ready) : g.step (.request i true)
      = some ((g.send i true letterBytes).setParty i { p with fate := .receiving }) := by
  simp only [step, hp, hrole, hfate, and_self, if_true]

/-- A server answers the letter. -/
theorem step_answer (hx : g.sent[k]? = some x) (hp : g.parties[i]? = some p)
    (hrole : p.role = .server) (hfate : p.fate = .receiving) (hreach : Reaches g.addr x i p)
    (hbytes : x.bytes = letterBytes) : g.step (.deliver k i text true)
      = some ((g.send i true (serverTimeStr text)).setParty i
          { p with shown := p.shown ++ [(k, letterBytes)] }) := by
  simp only [step, hx, hp, hfate, hreach, hbytes, serverShows_letter, and_self, if_true]
  rw [hrole]

/-- It writes behind the end of its array when it hears the answer of another server. -/
theorem step_overrun (hx : g.sent[k]? = some x) (hp : g.parties[i]? = some p)
    (hrole : p.role = .server) (hfate : p.fate = .receiving) (hreach : Reaches g.addr x i p)
    {t : CtimeText} (hbytes : x.bytes = serverTimeStr t) {sends : Bool} :
    g.step (.deliver k i text sends) = some (g.setParty i { p with fate := .wild }) := by
  simp only [step, hx, hp, hfate, hreach, hbytes, serverShows_time, and_self, if_true]
  rw [hrole]

theorem start_parties (addr : Addr) {role : Role} (h : roleOf members i = some role) :
    ∃ sock, (role, sock) ∈ members ∧
      (start addr members).parties[i]? = some (startParty (role, sock)) := by
  obtain ⟨⟨r, sock⟩, hm, rfl⟩ := Option.map_eq_some_iff.mp h
  exact ⟨sock, List.mem_of_getElem? hm, by rw [start, List.getElem?_map, hm]; rfl⟩

theorem setParty_other {g : Group} {i j : Nat} (p : Party) (h : i ≠ j) :
    (g.setParty i p).parties[j]? = g.parties[j]? := List.getElem?_set_ne h

/-- No one has written or read outside of its arrays. -/
def InBounds (g : Group) : Prop := ∀ p ∈ g.parties, p.fate ≠ .wild

/-- A letter, its answer, and the other server. -/
theorem Crossed.overruns (h : Crossed addr members) (hjoined : ∀ m ∈ members, Joined addr m.2)
    (text : CtimeText) : ∃ events g, replay step (start addr members) events = some g ∧
      ¬g.InBounds := by
  obtain ⟨hopt, ⟨k, hk⟩, i, j, hij, hi, hj⟩ := h
  obtain ⟨sockk, hmemk, hpk⟩ := start_parties addr hk
  obtain ⟨socki, hmemi, hpi⟩ := start_parties addr hi
  obtain ⟨sockj, hmemj, hpj⟩ := start_parties addr hj
  have hki : k ≠ i := by
    rintro rfl
    rw [hk] at hi
    cases hi
  have hkj : k ≠ j := by
    rintro rfl
    rw [hk] at hj
    cases hj
  have hreach : ∀ {sock : McastFile} {m n : Nat} (bytes : List UInt8),
      (Role.server, sock) ∈ members → m ≠ n →
      Reaches addr ⟨m, bytes⟩ n (startParty (.server, sock)) := by
    intro sock m n bytes hmem hmn
    refine (Joined.reaches_iff (p := startParty (.server, sock)) (hjoined _ hmem) _ _).mpr ?_
    exact ⟨hopt, Ne.symm hmn⟩
  -- the letter is sent
  obtain ⟨g₁, hstep₁, haddr₁, hsent₁, hpi₁, hpj₁⟩ : ∃ g₁ : Group,
      (start addr members).step (.request k true) = some g₁ ∧ g₁.addr = addr ∧
        g₁.sent = [⟨k, letterBytes⟩] ∧
        g₁.parties[i]? = some (startParty (.server, socki)) ∧
        g₁.parties[j]? = some (startParty (.server, sockj)) :=
    ⟨_, step_request hpk rfl rfl, rfl, rfl, (setParty_other _ hki).trans hpi,
      (setParty_other _ hkj).trans hpj⟩
  -- the first server answers it
  obtain ⟨g₂, hstep₂, haddr₂, hsent₂, hpj₂⟩ : ∃ g₂ : Group,
      g₁.step (.deliver 0 i text true) = some g₂ ∧ g₂.addr = addr ∧
        g₂.sent[1]? = some ⟨i, serverTimeStr text⟩ ∧
        g₂.parties[j]? = some (startParty (.server, sockj)) := by
    have hfirst : g₁.sent[0]? = some ⟨k, letterBytes⟩ := by
      rw [hsent₁]
      rfl
    refine ⟨_, step_answer hfirst hpi₁ rfl rfl (haddr₁ ▸ hreach _ hmemi hki) rfl, haddr₁, ?_,
      (setParty_other _ hij).trans hpj₁⟩
    show (g₁.sent ++ [⟨i, serverTimeStr text⟩])[1]? = _
    rw [hsent₁]
    rfl
  -- and the second one hears the answer
  have hstep₃ : g₂.step (.deliver 1 j text true) = some (g₂.setParty j _) :=
    step_overrun hsent₂ hpj₂ rfl rfl (haddr₂ ▸ hreach _ hmemj hij) rfl
  refine ⟨[.request k true, .deliver 0 i text true, .deliver 1 j text true], _,
    replay_cons.mpr ⟨g₁, hstep₁, replay_cons.mpr ⟨g₂, hstep₂, replay_cons.mpr ⟨_, hstep₃, rfl⟩⟩⟩,
    fun hall => ?_⟩
  have hlt : j < g₂.parties.length := (List.getElem?_eq_some_iff.mp hpj₂).1
  exact hall _ (List.mem_of_getElem? (List.getElem?_set_self hlt)) rfl

/-- Some time of day. -/
def sampleText : CtimeText where
  bytes := List.replicate 25 0x30
  length_eq := by decide
  noZero := by decide

theorem run_inv (hjoined : ∀ m ∈ members, Joined addr m.2) {events : List Event}
    (hrun : replay step (start addr members) events = some g) : g.Inv addr members :=
  replay_invariant (I := fun _ => True) (fun _ _ _ _ h hs => h.step hjoined hs)
    (fun _ _ => trivial) (start_inv addr members) hrun

theorem Inv.party (h : g.Inv addr members) {p : Party} (hp : p ∈ g.parties) :
    ∃ i, PartyOk addr members g.sent i p := by
  obtain ⟨i, hi, hget⟩ := List.mem_iff_getElem.mp hp
  exact ⟨i, h.parties i p (by rw [List.getElem?_eq_getElem hi, hget])⟩

/--
**When the group keeps to its arrays.**

In every run of a group of clients and servers, whatever the network loses, repeats and reorders,
no server writes behind its array and no client prints bytes from behind its own, if and only if
there is nobody to ask, or there are no two servers, or the family of the group has no options, so
that nobody is a member.
-/
theorem inBounds_iff (addr : Addr) (members : List (Role × McastFile))
    (hjoined : ∀ m ∈ members, Joined addr m.2) :
    (∀ events g, replay step (start addr members) events = some g → g.InBounds) ↔
      ¬Crossed addr members := by
  constructor
  · intro hall hcrossed
    obtain ⟨events, g, hrun, hout⟩ := hcrossed.overruns hjoined sampleText
    exact hout (hall events g hrun)
  · intro hcrossed events g hrun p hp hwild
    obtain ⟨i, hok⟩ := (run_inv hjoined hrun).party hp
    exact hcrossed (hok.wild hwild).2

/-- The socket of `sampleJoin`. -/
def sampleSock : McastFile := readyFile sampleHost sampleGroup none

theorem sampleSock_joined : Joined sampleGroup sampleSock :=
  ⟨.empty, .cleared, sampleJoin, 3, none, _, rfl, rfl⟩

/-- One server and two clients. -/
def sampleMembers : List (Role × McastFile) :=
  [(.client, sampleSock), (.server, sampleSock), (.client, sampleSock)]

theorem sampleMembers_joined : ∀ m ∈ sampleMembers, Joined sampleGroup m.2 := by
  intro m hm
  have hsock : m.2 = sampleSock := by
    rcases List.mem_cons.mp hm with rfl | hm
    · rfl
    · rcases List.mem_cons.mp hm with rfl | hm
      · rfl
      · rw [List.mem_singleton.mp hm]
  rw [hsock]
  exact sampleSock_joined

/-- The server is number 1. -/
theorem sampleMembers_server {n : Nat} (h : roleOf sampleMembers n = some .server) : n = 1 := by
  rcases n with _ | _ | _ | n
  · cases h
  · rfl
  · cases h
  · cases h

theorem oneServer_inBounds : ¬Crossed sampleGroup sampleMembers ∧ ∀ events g,
    replay step (start sampleGroup sampleMembers) events = some g → g.InBounds := by
  have hcrossed : ¬Crossed sampleGroup sampleMembers := by
    intro hcrossed
    obtain ⟨i, j, hij, hi, hj⟩ := hcrossed.servers
    exact hij ((sampleMembers_server hi).trans (sampleMembers_server hj).symm)
  exact ⟨hcrossed, (inBounds_iff sampleGroup _ sampleMembers_joined).mpr hcrossed⟩

end Group

end Nwchecker.Mcast
