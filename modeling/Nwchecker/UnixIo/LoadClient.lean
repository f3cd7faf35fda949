import Nwchecker.Lib.Machine
import Nwchecker.UnixIo.Connection

/-!
# The load client

`nwc_client` of the exercise on Unix I/O. It sends `count * sent_pkgs` pings, one in a pass of its
loop, and adds up what it has sent. The passes are counted and not the pings: `loop_count` goes down
whenever a pass comes to its end, and `total_send_size` goes up by a whole message whenever `send`
has not been interrupted.

How long `select` waits is left out. What it answers, and what the calls for the socket do, is up to
the system.
-/

namespace Nwchecker.UnixIo

open Machine

/-- `struct nwc_args`, as far as the accounting goes. -/
structure LoadArgs where
  count : Int32
  sentPkgs : Int32
  messageSize : Int32
  deriving DecidableEq, Repr

namespace LoadArgs

def sendMsgLen (na : LoadArgs) : Nat := if na.messageSize ≤ 0 then 5 else na.messageSize.toInt.toNat

def slotSendCount (na : LoadArgs) : Int32 := if na.sentPkgs ≤ 0 then 1 else na.sentPkgs

def infinit (na : LoadArgs) : Bool := na.count ≤ 0

/-- The messages that have been asked for. -/
def messages (na : LoadArgs) : Int := na.count.toInt * na.slotSendCount.toInt

end LoadArgs

inductive ConnState where
  | unconnected
  | connected
  deriving DecidableEq, Repr

/-- How the loop is left: by the count, or by another `break`. -/
inductive Ending where
  | counted
  | broken
  deriving DecidableEq, Repr

structure LoadClient where
  sendMsgLen : Nat
  infinit : Bool
  loopCount : Int32
  state : ConnState
  events : Events
  totalSendSize : UInt64
  /-- The bytes that `send` has accepted, and the calls in which it took the whole message. -/
  accepted : Nat
  whole : Nat
  ended : Option Ending
  deriving DecidableEq, Repr

/-- The answers of one pass: what `select` says about the socket, if it is asked, the `err` of
`getsockopt`, and `send` and `recv`. -/
structure PassAnswers where
  select : Except Int (Bool × Bool)
  soError : Int
  send : Except Int Nat
  recv : Except Int Nat

/-- `err` for which the connection is given up. -/
def connectErrors : List Int :=
  [ECONNREFUSED, ECONNRESET, ETIMEDOUT, EHOSTUNREACH, ENETUNREACH, ENETDOWN, EINVAL]

namespace LoadClient

/-- In front of the loop. `connect` has succeeded, or is in progress. -/
def start (na : LoadArgs) (connected : Bool) : LoadClient where
  sendMsgLen := na.sendMsgLen
  infinit := na.infinit
  loopCount := na.count * na.slotSendCount
  state := if connected then .connected else .unconnected
  events := { read := true, write := !connected }
  totalSendSize := 0
  accepted := 0
  whole := 0
  ended := none

/-! The parts of a pass. `ok` goes on behind the part, and `error` ends the pass: by a `continue`,
or by a `break` when `ended` is set. -/

/-- `break` -/
def leave (s : LoadClient) : LoadClient := { s with ended := some .broken }

/-- The connection is there. -/
def online (s : LoadClient) : LoadClient :=
  { s with state := .connected, events := { s.events with write := false } }

def connecting (s : LoadClient) (writable : Bool) (soError : Int) : Except LoadClient LoadClient :=
  if s.state = .unconnected ∧ writable = true then
    if soError ∈ connectErrors then .error s.leave else .ok s.online
  else .ok s

/-- `total_send_size += send_msg_len` -/
def addSize (s : LoadClient) : LoadClient :=
  { s with totalSendSize := s.totalSendSize + UInt64.ofNat s.sendMsgLen }

/-- The transport takes `n` bytes of the message. -/
def accept (s : LoadClient) (n : Nat) : LoadClient :=
  { s with
    accepted := s.accepted + n
    whole := if n = s.sendMsgLen then s.whole + 1 else s.whole }

def sendPing (s : LoadClient) (writable : Bool) (send : Except Int Nat) :
    Except LoadClient LoadClient :=
  if !s.events.write || writable then
    let s := { s with events := { s.events with write := false } }
    match send with
    | .ok n => .ok (s.accept n).addSize
    | .error errno =>
      if errno = EINTR then .error s
      else if errno = EAGAIN then
        .ok { s with events := { s.events with write := true } }.addSize
      else .error s.leave
  else .ok s

def receivePong (s : LoadClient) (readable : Bool) (recv : Except Int Nat) :
    Except LoadClient LoadClient :=
  if readable then
    match recv with
    | .ok 0 => .error s.leave
    | .ok (_ + 1) => .ok s
    | .error errno =>
      if errno = EINTR then .error s else if errno = EAGAIN then .ok s else .error s.leave
  else .ok s

/-- What is done with the socket. -/
def serve (s : LoadClient) (readable writable : Bool) (a : PassAnswers) :
    Except LoadClient LoadClient := do
  let s ← s.connecting writable a.soError
  if s.state = .connected then
    let s ← s.sendPing writable a.send
    s.receivePong readable a.recv
  else .ok s

/-- `if (!infinit)` -/
def countDown (s : LoadClient) : LoadClient :=
  if s.infinit then s
  else
    let s := { s with loopCount := s.loopCount - 1 }
    if s.loopCount = 0 then { s with ended := some .counted } else s

/-- A pass of the loop. -/
def pass (s : LoadClient) (a : PassAnswers) : LoadClient :=
  match a.select with
  | .error errno => if errno = EINTR then s else s.leave
  | .ok (readable, writable) =>
    match s.serve (s.events.read && readable) (s.events.write && writable) a with
    | .ok s => s.countDown
    | .error s => s

/-- `send` takes no more than it has been given. -/
def Allowed (s : LoadClient) (a : PassAnswers) : Prop :=
  match a.send with
  | .ok n => n ≤ s.sendMsgLen
  | .error _ => True

instance (s : LoadClient) (a : PassAnswers) : Decidable (s.Allowed a) := by
  unfold Allowed
  cases a.send <;> infer_instance

def step (s : LoadClient) (a : PassAnswers) : Option LoadClient :=
  if s.ended = none ∧ s.Allowed a then some (s.pass a) else none

/-! ## When the accounting is exact -/

/-- What the client has added up is what the transport has accepted, and that is as many whole
messages as have been asked for. -/
def Exact (na : LoadArgs) (s : LoadClient) : Prop :=
  s.totalSendSize.toNat = s.accepted ∧ (s.whole : Int) = na.messages

/--
A pass that counts sends a whole message, and one that sends a message counts: a client that waits
for its connection wakes up for nothing else, `send` takes all of the message or fails otherwise
than with `EAGAIN`, and the receive behind it is not interrupted.
-/
def Regular (s : LoadClient) (a : PassAnswers) : Prop :=
  match a.select with
  | .error _ => True
  | .ok (readable, writable) =>
    (s.events.write = true → writable = true) ∧
      match a.send with
      | .ok n => n = s.sendMsgLen ∧ (readable = true → a.recv ≠ .error EINTR)
      | .error errno => errno ≠ EAGAIN

instance (s : LoadClient) (a : PassAnswers) : Decidable (s.Regular a) := by
  unfold Regular
  cases a.select with
  | error _ => infer_instance
  | ok r =>
    dsimp only
    cases a.send <;> infer_instance

variable {na : LoadArgs} {s s' : LoadClient} {a : PassAnswers} {readable writable : Bool}

theorem online_of_connected (hstate : s.state = .connected) (hwrite : s.events.write = false) :
    s.online = s := by
  obtain ⟨len, infinit, loopCount, state, ⟨read, write⟩, total, accepted, whole, ended⟩ := s
  cases hstate
  cases hwrite
  rfl

/-- A client waits to write as long as it waits for its connection. -/
theorem connecting_regular (hpending : s.events.write = true ↔ s.state = .unconnected)
    (hwritable : s.events.write = true → writable = true) (soError : Int) :
    s.connecting writable soError = .ok s.online ∨
      s.connecting writable soError = .error s.leave := by
  unfold connecting
  cases hstate : s.state with
  | unconnected =>
    rw [if_pos ⟨rfl, hwritable (hpending.mpr hstate)⟩]
    split
    · exact .inr rfl
    · exact .inl rfl
  | connected =>
    have hwrite : s.events.write = false := by
      cases hw : s.events.write with
      | false => rfl
      | true =>
        rw [hpending.mp hw] at hstate
        cases hstate
    rw [if_neg (fun h => by cases h.1), online_of_connected hstate hwrite]
    exact .inl rfl

/-- The receive ends the pass by a `break`, if it does. -/
theorem receivePong_regular {recv : Except Int Nat}
    (hrecv : readable = true → recv ≠ .error EINTR) :
    s.receivePong readable recv = .ok s ∨ s.receivePong readable recv = .error s.leave := by
  unfold receivePong
  split
  · next hread =>
    split
    · exact .inr rfl
    · exact .inl rfl
    · next errno =>
      split
      · next heq =>
        rw [heq] at hrecv
        exact absurd rfl (hrecv hread)
      · split
        · exact .inl rfl
        · exact .inr rfl
  · exact .inl rfl

/-- A message has been sent. -/
def sentWhole (s : LoadClient) : LoadClient := (s.online.accept s.sendMsgLen).addSize

/-- What a pass does for which the send is reached, and neither takes a part of the message nor is
interrupted behind it. -/
theorem serve_regular (hpending : s.events.write = true ↔ s.state = .unconnected)
    (hwritable : s.events.write = true → writable = true)
    (hsend : match a.send with
      | .ok n => n = s.sendMsgLen ∧ (readable = true → a.recv ≠ .error EINTR)
      | .error errno => errno ≠ EAGAIN) :
    s.serve readable writable a = .ok s.sentWhole ∨ s.serve readable writable a = .error s.online ∨
      ∃ t, s.serve readable writable a = .error t ∧ t.ended = some .broken := by
  unfold serve
  rcases connecting_regular hpending hwritable a.soError with hconn | hconn
  · -- nothing is waited for any more
    have hsending : s.online.sendPing writable a.send =
        match a.send with
        | .ok n => .ok (s.online.accept n).addSize
        | .error errno =>
          if errno = EINTR then .error s.online
          else if errno = EAGAIN then
            .ok { s.online with events := { s.online.events with write := true } }.addSize
          else .error s.online.leave := rfl
    rw [hconn]
    show (s.online.sendPing writable a.send >>= fun s => s.receivePong readable a.recv) = _ ∨
      (s.online.sendPing writable a.send >>= fun s => s.receivePong readable a.recv) = _ ∨
        ∃ t, (s.online.sendPing writable a.send >>= fun s => s.receivePong readable a.recv) = _ ∧ _
    rw [hsending]
    cases hans : a.send with
    | ok n =>
      rw [hans] at hsend
      obtain ⟨rfl, hrecv⟩ := hsend
      rcases receivePong_regular (s := s.sentWhole) hrecv with hpong | hpong
      · exact .inl hpong
      · exact .inr (.inr ⟨s.sentWhole.leave, hpong, rfl⟩)
    | error errno =>
      rw [hans] at hsend
      right
      dsimp only
      by_cases hint : errno = EINTR
      · rw [if_pos hint]
        exact .inl rfl
      · rw [if_neg hint, if_neg hsend]
        exact .inr ⟨s.online.leave, rfl, rfl⟩
  · rw [hconn]
    exact .inr (.inr ⟨s.leave, rfl, rfl⟩)

/-- What a regular pass can do. -/
theorem step_regular (hpending : s.events.write = true ↔ s.state = .unconnected)
    (hreg : s.Regular a) (h : step s a = some s') :
    s' = s ∨ s' = s.online ∨ s' = s.sentWhole.countDown ∨ s'.ended = some .broken := by
  unfold step at h
  split at h
  case isFalse => cases h
  cases h
  unfold pass
  unfold Regular at hreg
  cases hselect : a.select with
  | error errno =>
    dsimp only
    split
    · exact .inl rfl
    · exact .inr (.inr (.inr rfl))
  | ok r =>
    obtain ⟨readable, writable⟩ := r
    rw [hselect] at hreg
    obtain ⟨hwritable, hsend⟩ := hreg
    have hboth : s.events.write = true → (s.events.write && writable) = true := by
      intro hw
      rw [hw, hwritable hw]
      rfl
    have hasked : match a.send with
        | .ok n => n = s.sendMsgLen ∧ ((s.events.read && readable) = true → a.recv ≠ .error EINTR)
        | .error errno => errno ≠ EAGAIN := by
      cases hans : a.send with
      | ok n =>
        rw [hans] at hsend
        exact ⟨hsend.1, fun hr => hsend.2 ((Bool.and_eq_true _ _).mp hr).2⟩
      | error errno =>
        rw [hans] at hsend
        exact hsend
    right
    dsimp only
    rcases serve_regular hpending hboth hasked with hserve | hserve | ⟨t, hserve, ht⟩
    · rw [hserve]
      exact .inr (.inl rfl)
    · rw [hserve]
      exact .inl rfl
    · rw [hserve]
      exact .inr (.inr ht)

/-! ## Whole runs -/

/-- The invariant of a run whose passes are regular. -/
structure Balanced (na : LoadArgs) (s : LoadClient) : Prop where
  len : s.sendMsgLen = na.sendMsgLen
  infinit : s.infinit = na.infinit
  pending : s.events.write = true ↔ s.state = .unconnected
  accepted : s.accepted = s.whole * s.sendMsgLen
  total : s.totalSendSize = UInt64.ofNat s.accepted
  /-- What is left to be sent, and the end. -/
  counting : na.infinit = true ∧ s.ended = none ∨
    s.loopCount.toInt + s.whole = na.messages ∧
      (s.ended = none ∧ 0 < s.loopCount.toInt ∨ s.ended = some .counted ∧ s.loopCount.toInt = 0)

/-- The messages can be counted by an `int`. -/
def Countable (na : LoadArgs) : Prop := na.messages < 2147483648

instance (na : LoadArgs) : Decidable (Countable na) := inferInstanceAs (Decidable (_ < _))

theorem slotSendCount_pos (na : LoadArgs) : 0 < na.slotSendCount.toInt := by
  unfold LoadArgs.slotSendCount
  split
  · decide
  · next h =>
    have hlt := Int32.not_le.mp h
    exact Int32.lt_iff_toInt_lt.mp hlt

theorem balanced_start (hcount : Countable na) (connected : Bool) :
    Balanced na (start na connected) where
  len := rfl
  infinit := rfl
  pending := by cases connected <;> simp [start]
  accepted := (Nat.zero_mul _).symm
  total := rfl
  counting := by
    cases hinf : na.infinit with
    | true => exact .inl ⟨rfl, rfl⟩
    | false =>
      have hpos : 0 < na.count.toInt := by
        have hlt := Int32.not_le.mp (of_decide_eq_false hinf)
        exact Int32.lt_iff_toInt_lt.mp hlt
      have hmessages : 0 < na.messages := Int.mul_pos hpos (slotSendCount_pos na)
      have hloop : (start na connected).loopCount.toInt = na.messages := by
        show (na.count * na.slotSendCount).toInt = _
        rw [Int32.toInt_mul]
        show na.messages.bmod (2 ^ 32) = na.messages
        have hlt : na.messages < 2147483648 := hcount
        exact Int.bmod_eq_of_le (by omega) (by omega)
      refine .inr ⟨?_, .inl ⟨rfl, by omega⟩⟩
      rw [hloop]
      exact Int.add_zero _

theorem Balanced.online (h : Balanced na s) : Balanced na s.online := by
  obtain ⟨hlen, hinf, -, haccepted, htotal, hcounting⟩ := h
  exact ⟨hlen, hinf, by simp [LoadClient.online], haccepted, htotal, hcounting⟩

/-- One message more, and one less to come. -/
theorem Balanced.sentWhole (h : Balanced na s) (hrunning : s.ended = none) :
    Balanced na s.sentWhole.countDown := by
  obtain ⟨hlen, hinf, -, haccepted, htotal, hcounting⟩ := h
  have hwhole : s.sentWhole.whole = s.whole + 1 := if_pos rfl
  have hsum : s.sentWhole.accepted = s.sentWhole.whole * s.sentWhole.sendMsgLen := by
    rw [hwhole, Nat.add_mul, Nat.one_mul]
    exact congrArg (· + s.sendMsgLen) haccepted
  have hsize : s.sentWhole.totalSendSize = UInt64.ofNat s.sentWhole.accepted := by
    show s.totalSendSize + UInt64.ofNat s.sendMsgLen = UInt64.ofNat (s.accepted + s.sendMsgLen)
    rw [htotal, UInt64.ofNat_add]
  have hpending : s.sentWhole.events.write = true ↔ s.sentWhole.state = .unconnected := by
    simp [LoadClient.sentWhole, LoadClient.online, accept, addSize]
  unfold countDown
  split
  · next hinfinit =>
    have hforever : na.infinit = true := hinf.symm.trans hinfinit
    exact ⟨hlen, hinf, hpending, hsum, hsize, .inl ⟨hforever, hrunning⟩⟩
  · next hfinite =>
    rcases hcounting with ⟨hforever, -⟩ | ⟨hleft, ⟨-, hpos⟩ | ⟨hended, -⟩⟩
    · exact absurd (hinf.trans hforever) hfinite
    · have hpred : (s.loopCount - 1).toInt = s.loopCount.toInt - 1 := by
        have hlt := Int32.toInt_lt s.loopCount
        rw [Int32.toInt_sub]
        show (s.loopCount.toInt - 1).bmod (2 ^ 32) = _
        exact Int.bmod_eq_of_le (by omega) (by omega)
      have hnext : (s.loopCount - 1).toInt + (s.sentWhole.whole : Int) = na.messages := by
        rw [hpred, hwhole]
        omega
      dsimp only
      split
      · next hzero =>
        have hdone : (s.loopCount - 1).toInt = 0 := congrArg Int32.toInt hzero
        exact ⟨hlen, hinf, hpending, hsum, hsize, .inr ⟨hnext, .inr ⟨rfl, hdone⟩⟩⟩
      · next hmore =>
        have hne : (s.loopCount - 1).toInt ≠ 0 := fun h => hmore (Int32.toInt_inj.mp h)
        have hstill : 0 < (s.loopCount - 1).toInt := by omega
        exact ⟨hlen, hinf, hpending, hsum, hsize, .inr ⟨hnext, .inl ⟨hrunning, hstill⟩⟩⟩
    · rw [hrunning] at hended
      cases hended

theorem step_running (h : step s a = some s') : s.ended = none := by
  unfold step at h
  split at h
  · next hguard => exact hguard.1
  · cases h

/-- A regular pass keeps the balance, unless the loop is left without the count. -/
theorem balanced_step (h : s.ended = some .broken ∨ Balanced na s) (hreg : s.Regular a)
    (hstep : step s a = some s') : s'.ended = some .broken ∨ Balanced na s' := by
  have hrunning := step_running hstep
  rcases h with hbroken | h
  · rw [hrunning] at hbroken
    cases hbroken
  · rcases step_regular h.pending hreg hstep with rfl | rfl | rfl | hbroken
    · exact .inr h
    · exact .inr h.online
    · exact .inr (h.sentWhole hrunning)
    · exact .inl hbroken

/-- At the end nothing is left to be sent. -/
theorem Balanced.whole_eq (h : Balanced na s) (hended : s.ended = some .counted) :
    (s.whole : Int) = na.messages := by
  rcases h.counting with ⟨-, hnone⟩ | ⟨hleft, ⟨hnone, -⟩ | ⟨-, hzero⟩⟩
  · rw [hnone] at hended
    cases hended
  · rw [hnone] at hended
    cases hended
  · rw [hzero, Int.zero_add] at hleft
    exact hleft

/-- The whole load fits into 64 bits. -/
theorem Balanced.total_toNat (h : Balanced na s) (hcount : Countable na)
    (hended : s.ended = some .counted) : s.totalSendSize.toNat = s.accepted := by
  have hwhole : s.whole < 2147483648 := by
    have hlt : na.messages < 2147483648 := hcount
    have heq := h.whole_eq hended
    omega
  have hlen : s.sendMsgLen < 2147483648 := by
    rw [h.len, LoadArgs.sendMsgLen]
    have hlt := Int32.toInt_lt na.messageSize
    split
    · decide
    · omega
  have hbound : s.accepted < 18446744073709551616 := by
    rw [h.accepted]
    calc s.whole * s.sendMsgLen
        ≤ 2147483648 * 2147483648 := Nat.mul_le_mul (Nat.le_of_lt hwhole) (Nat.le_of_lt hlen)
      _ < 18446744073709551616 := by decide
  rw [h.total, UInt64.toNat_ofNat']
  exact Nat.mod_eq_of_lt hbound

/-- **A run of regular passes is accounted for.** -/
theorem exact_of_regular {connected : Bool} {as : List PassAnswers} (hcount : Countable na)
    (hrun : replay step (start na connected) as = some s)
    (hall : Along step (start na connected) as Regular) (hended : s.ended = some .counted) :
    Exact na s := by
  have hbalanced := along_invariant (P := fun s => s.ended = some .broken ∨ Balanced na s)
    (fun _ _ _ h hreg hstep => balanced_step h hreg hstep)
    (.inr (balanced_start hcount connected)) hrun hall
  rcases hbalanced with hbroken | h
  · rw [hbroken] at hended
    cases hended
  · exact ⟨h.total_toNat hcount hended, h.whole_eq hended⟩

/-- The answers of a pass in which all goes well. -/
def steady (len : Nat) : PassAnswers where
  select := .ok (true, true)
  soError := 0
  send := .ok len
  recv := .ok 5

/-- Two rounds of two pings, over a connection that has to be waited for. -/
def twoRounds : LoadArgs where
  count := 2
  sentPkgs := 2
  messageSize := 0

/-- Some calls are interrupted, and one pong is not there yet. -/
def twoRoundsAnswers : List PassAnswers :=
  [{ steady 5 with select := .error EINTR }, steady 5, { steady 5 with send := .error EINTR },
    steady 5, steady 5, { steady 5 with recv := .error EAGAIN }]

theorem twoRounds_exact : ∃ s,
    replay step (start twoRounds false) twoRoundsAnswers = some s ∧ Exact twoRounds s := by
  have hcounted : (replay step (start twoRounds false) twoRoundsAnswers).map ended =
      some (some .counted) := by decide +kernel
  obtain ⟨s, hrun, hended⟩ := Option.map_eq_some_iff.mp hcounted
  exact ⟨s, hrun, exact_of_regular (by decide +kernel) hrun (by decide +kernel) hended⟩

/-- One message that is larger than what the transport takes at once. -/
def largeMessage : LoadArgs where
  count := 1
  sentPkgs := 1
  messageSize := 10000000

/-- All of it is added up, and the rest of it is never sent. -/
theorem largeMessage_not_exact : ∃ s,
    replay step (start largeMessage true) [steady 2500000] = some s ∧ s.ended = some .counted ∧
      s.totalSendSize = 10000000 ∧ s.accepted = 2500000 ∧ s.whole = 0 ∧ ¬Exact largeMessage s := by
  have hrun : (replay step (start largeMessage true) [steady 2500000]).map
      (fun s => (s.ended, s.totalSendSize, s.accepted, s.whole)) =
        some (some .counted, 10000000, 2500000, 0) := by decide +kernel
  obtain ⟨s, hs, hfacts⟩ := Option.map_eq_some_iff.mp hrun
  simp only [Prod.mk.injEq] at hfacts
  obtain ⟨hended, htotal, haccepted, hwhole⟩ := hfacts
  refine ⟨s, hs, hended, htotal, haccepted, hwhole, ?_⟩
  rintro ⟨hexact, -⟩
  rw [htotal, haccepted] at hexact
  exact absurd hexact (by decide)

end LoadClient

end Nwchecker.UnixIo
