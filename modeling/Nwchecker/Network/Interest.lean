import Nwchecker.Network.TcpHandler

/-!
# The interest set of a `TcpHandler`

A connection is pending with `OP_CONNECT` and established with `OP_READ`, as long as nothing goes
wrong.

It does as soon as a connection is established that has not been accepted: `connect` registers
nothing for one that is there at once, and `handle_connected` adds `OP_READ` and leaves
`OP_CONNECT`. It does for a second connection of one handler too, because `sk_` stays the key of the
first one.
-/

namespace Nwchecker.Network

open Java Machine

namespace TcpHandler

/-! ## What the interest set has to be -/

def state (h : TcpHandler) : Option ChannelState := h.sc.map SocketChannel.state

/-- What the selector waits for on `sc_`. -/
def interest (h : TcpHandler) : Ops :=
  match h.sc, h.sk with
  | some sc, some sk => if sk.channel = sc.id ∧ sk.key.valid = true then sk.key.ops else Ops.none
  | _, _ => Ops.none

/-- The interest set follows the connection. -/
structure Follows (h : TcpHandler) : Prop where
  pending : h.state = some .pending → h.interest.connect = true ∧ h.interest.read = false
  connected : h.state = some .connected → h.interest.read = true ∧ h.interest.connect = false
  /-- `poll` delivers the reads. -/
  delivers : h.state = some .connected → ∀ ready, Within ready h.interest → ready.read = true →
    dispatch ready = some .handleRead
  /-- `poll` does not report the connection again. -/
  once : h.state = some .connected → ∀ ready, Within ready h.interest →
    dispatch ready ≠ some .handleConnected

/-- The handler has no key yet, or does not need one. No connection is completed and kept. -/
def Good (h : TcpHandler) : Event → Prop
  | .connect .immediate => False
  | .connect .pending => h.sk = none
  | .connect _ => True
  | .accept => h.sk = none
  | .poll ready finish ops =>
    dispatch ready = some .handleConnected → h.state = some .pending → finish = .done → .close ∈ ops
  | .call _ => True

variable {h t : TcpHandler}

/-! ## The interest set -/

/-- Only a key of `sc_` that is not cancelled has an interest set. -/
theorem exists_key (h0 : h.interest ≠ Ops.none) : ∃ sc sk, h.sc = some sc ∧ h.sk = some sk ∧
    sk.channel = sc.id ∧ sk.key.valid = true ∧ h.interest = sk.key.ops := by
  unfold interest at h0 ⊢
  split
  · next sc sk hsc hsk =>
    rw [hsc, hsk] at h0
    dsimp only at h0
    split
    · next hkey => exact ⟨sc, sk, hsc, hsk, hkey.1, hkey.2, rfl⟩
    · next hkey =>
      rw [if_neg hkey] at h0
      exact absurd rfl h0
  · next hnone =>
    split at h0
    · next sc sk hsc hsk => exact absurd hsk (hnone sc sk hsc)
    · exact absurd rfl h0

theorem exists_key_of_connect (hbit : h.interest.connect = true) : ∃ sc sk, h.sc = some sc ∧
    h.sk = some sk ∧ sk.channel = sc.id ∧ sk.key.valid = true ∧ h.interest = sk.key.ops :=
  exists_key fun hnone => by
    rw [hnone] at hbit
    cases hbit

theorem registerEvent_sc (ops : Ops) (h : TcpHandler) : (registerEvent ops h).1.sc = h.sc := by
  rcases registerEvent_cases ops h with heq | ⟨-, sc, -, heq⟩ | ⟨sk, -, heq⟩
  · rw [heq]
  · rw [heq]
  · rw [heq]

theorem cancelEvent_sc (ops : Ops) (h : TcpHandler) : (cancelEvent ops h).1.sc = h.sc := by
  rcases cancelEvent_cases ops h with heq | ⟨sk, -, heq⟩
  · rw [heq]
  · rw [heq]

/-- A question that a change of the key does not bear on. -/
theorem interest_setKey {sk : ChannelKey} (hsk : h.sk = some sk) (bit : Ops → Bool) {ops : Ops}
    (hbit : bit ops = bit sk.key.ops) :
    bit (interest { h with sk := some { sk with key := { sk.key with ops := ops } } }) =
      bit h.interest := by
  unfold interest
  rw [hsk]
  cases h.sc with
  | none => rfl
  | some sc =>
    dsimp only
    split
    · exact hbit
    · rfl

/-- A new key waits for what it has been made for. -/
theorem interest_newKey {sc : SocketChannel} (hsc : h.sc = some sc) (ops : Ops) :
    interest { h with sk := some { channel := sc.id, key := { valid := true, ops := ops } } } =
      ops := by
  simp [interest, hsc]

theorem interest_noKey (hsk : h.sk = none) : h.interest = Ops.none := by
  unfold interest
  rw [hsk]
  cases h.sc with
  | none => rfl
  | some sc => rfl

/-- Neither `sc_` nor what it is waited for changes, but for `OP_WRITE`. -/
structure Same (h t : TcpHandler) : Prop where
  sc : t.sc = h.sc
  connect : t.interest.connect = h.interest.connect
  read : t.interest.read = h.interest.read

theorem registerWrite_same (h : TcpHandler) : Same h (registerEvent OP_WRITE h).1 := by
  rcases registerEvent_cases OP_WRITE h with heq | ⟨hnone, sc, hsc, heq⟩ | ⟨sk, hsk, heq⟩
  · rw [heq]
    exact ⟨rfl, rfl, rfl⟩
  · refine ⟨registerEvent_sc _ h, ?_, ?_⟩
    · rw [heq, interest_newKey hsc, interest_noKey hnone]
      rfl
    · rw [heq, interest_newKey hsc, interest_noKey hnone]
      rfl
  · refine ⟨registerEvent_sc _ h, ?_, ?_⟩
    · rw [heq, interest_setKey hsk Ops.connect]
      exact Bool.or_false _
    · rw [heq, interest_setKey hsk Ops.read]
      exact Bool.or_false _

theorem cancelWrite_same (h : TcpHandler) : Same h (cancelEvent OP_WRITE h).1 := by
  rcases cancelEvent_cases OP_WRITE h with heq | ⟨sk, hsk, heq⟩
  · rw [heq]
    exact ⟨rfl, rfl, rfl⟩
  · refine ⟨cancelEvent_sc _ h, ?_, ?_⟩
    · rw [heq, interest_setKey hsk Ops.connect]
      exact Bool.and_true _
    · rw [heq, interest_setKey hsk Ops.read]
      exact Bool.and_true _

theorem perform_same {op : CallbackOp} (hop : op ≠ .close) (h : TcpHandler) :
    Same h (perform op h).1 := by
  cases op with
  | registerWrite => exact registerWrite_same h
  | cancelWrite => exact cancelWrite_same h
  | close => exact absurd rfl hop

/-- A handler that has a key is closed by `close`, and any other one stays as it is. -/
theorem close_state (h : TcpHandler) : (close h).1 = h ∨
    ((close h).1.state ≠ some .pending ∧ (close h).1.state ≠ some .connected) := by
  rcases close_cases h with heq | ⟨sk, -, ⟨hnone, heq⟩ | heq⟩
  · exact .inl heq
  · rw [heq]
    simp [state, hnone]
  · rw [heq]
    cases hsc : h.sc with
    | none => simp [state, closeChannel, setState]
    | some sc => simp [state, closeChannel, setState]

/-- What makes the interest set follow the connection. -/
structure Core (h : TcpHandler) : Prop where
  pending : h.state = some .pending → h.interest.connect = true ∧ h.interest.read = false
  connected : h.state = some .connected → h.interest.read = true ∧ h.interest.connect = false

theorem Core.of_gone (hpending : h.state ≠ some .pending) (hconnected : h.state ≠ some .connected) :
    h.Core where
  pending := fun hstate => absurd hstate hpending
  connected := fun hstate => absurd hstate hconnected

theorem Core.of_closed (hclosed : h.state = some .closed) : h.Core :=
  .of_gone (by rw [hclosed]; decide) (by rw [hclosed]; decide)

theorem Core.same (hc : h.Core) (hsame : Same h t) : t.Core where
  pending := by
    rw [state, hsame.sc, hsame.connect, hsame.read]
    exact hc.pending
  connected := by
    rw [state, hsame.sc, hsame.connect, hsame.read]
    exact hc.connected

theorem Core.perform (hc : h.Core) (op : CallbackOp) : (perform op h).1.Core := by
  by_cases hop : op = .close
  · rw [hop]
    show (close h).1.Core
    rcases close_state h with heq | ⟨hpending, hconnected⟩
    · rw [heq]
      exact hc
    · exact .of_gone hpending hconnected
  · exact hc.same (perform_same hop h)

theorem Core.callback (hc : h.Core) (ops : List CallbackOp) : (callback ops h).1.Core :=
  callback_keeps (fun op _ _ ht => ht.perform op) hc

/-! ## A handler that is closed -/

theorem perform_closed (hclosed : h.state = some .closed) (op : CallbackOp) :
    (perform op h).1.state = some .closed := by
  by_cases hop : op = .close
  · rw [hop]
    show (close h).1.state = some .closed
    obtain ⟨sc, hsc, -⟩ := Option.map_eq_some_iff.mp hclosed
    rcases close_cases h with heq | ⟨sk, -, ⟨hnone, -⟩ | heq⟩
    · rw [heq]
      exact hclosed
    · rw [hsc] at hnone
      cases hnone
    · rw [heq]
      simp [state, closeChannel, setState, hsc]
  · rw [state, (perform_same hop h).sc]
    exact hclosed

theorem callback_closed (hclosed : h.state = some .closed) (ops : List CallbackOp) :
    (callback ops h).1.state = some .closed :=
  callback_keeps (P := fun t => t.state = some .closed) (fun op _ _ ht => perform_closed ht op)
    hclosed

theorem registerEvent_state (ops : Ops) (h : TcpHandler) :
    (registerEvent ops h).1.state = h.state := by
  rw [state, registerEvent_sc, state]

/-- With a key, a callback comes to its `close`. -/
theorem callback_closes {ops : List CallbackOp} (hbit : h.interest.connect = true)
    (hmem : .close ∈ ops) : (callback ops h).1.state = some .closed := by
  induction ops generalizing h with
  | nil => exact absurd hmem List.not_mem_nil
  | cons op ops ih =>
    obtain ⟨sc, sk, hsc, hsk, hid, hvalid, -⟩ := exists_key_of_connect hbit
    by_cases hop : op = .close
    · rw [hop, callback]
      refine andThen_keeps (P := fun t => t.state = some .closed) ?_
        (fun _ ht => callback_closed ht ops)
      show (close h).1.state = some .closed
      simp [close, hsk, hsc, closeChannel, setState, state]
    · have hsame := perform_same hop h
      have hnone : (perform op h).2 = none := by
        cases op with
        | registerWrite => simp [perform, registerEvent, hsk, orInterest_valid hvalid]
        | cancelWrite => simp [perform, cancelEvent, hsk, maskInterest_valid hvalid]
        | close => exact absurd rfl hop
      rw [callback, Stmt.andThen_of_none hnone]
      refine ih (by rw [hsame.connect]; exact hbit) ?_
      exact (List.mem_cons.mp hmem).resolve_left (Ne.symm hop)

/-! ## The steps -/

theorem setState_interest (h : TcpHandler) (state : ChannelState) :
    (h.setState state).interest = h.interest := by
  obtain ⟨hsc, hsk, n⟩ := h
  cases hsc with
  | none => rfl
  | some sc =>
    cases hsk with
    | none => rfl
    | some sk => rfl

theorem setState_state {sc : SocketChannel} (hsc : h.sc = some sc) (state : ChannelState) :
    (h.setState state).state = some state := by
  simp [TcpHandler.state, setState, hsc]

theorem closeChannel_state {sc : SocketChannel} (hsc : h.sc = some sc) :
    h.closeChannel.state = some .closed := by
  simp [state, closeChannel, setState, hsc]

/-- A handler without a key registers its new channel. -/
theorem registered (hnone : h.sk = none) {state : ChannelState} (hopen : state ≠ .closed)
    (ops : Ops) : (registerEvent ops (h.setChannel state)).1.state = some state ∧
      (registerEvent ops (h.setChannel state)).1.interest = ops := by
  simp [registerEvent, setChannel, hnone, hopen, TcpHandler.state, interest]

/-- A handler with a key does not. -/
theorem not_registered (hs : h.Sound) (hkey : h.sk ≠ none) (state : ChannelState) (ops : Ops) :
    (registerEvent ops (h.setChannel state)).1.state = some state ∧
      (registerEvent ops (h.setChannel state)).1.interest = Ops.none := by
  refine ⟨by rw [registerEvent_state, TcpHandler.state, setChannel, Option.map_some], ?_⟩
  obtain ⟨sk, hsk⟩ := Option.ne_none_iff_exists'.mp hkey
  have hne : sk.channel ≠ h.channels := Nat.ne_of_lt (hs.keys sk hsk).1
  rcases registerEvent_cases ops (h.setChannel state) with heq | ⟨hnone, -⟩ | ⟨sk', hsk', heq⟩
  · rw [heq]
    simp [interest, setChannel, hsk, hne]
  · exact absurd hnone hkey
  · have hsame : sk' = sk := Option.some.inj (hsk'.symm.trans hsk)
    rw [heq, hsame]
    simp [interest, setChannel, hne]

/-- `poll` does not come to `handle_connected` for a connection that is established. -/
theorem Core.not_connected (hc : h.Core) {ready : Ops} (hmay : h.MayPoll ready)
    (hdispatch : dispatch ready = some .handleConnected) : h.state ≠ some .connected := by
  intro hstate
  obtain ⟨hread, hconnect⟩ := hc.connected hstate
  obtain ⟨sk, hsk, -, hwithin⟩ := hmay
  obtain ⟨sc, sk', -, hsk', -, -, hinterest⟩ := exists_key (h := h) fun hnone => by
    rw [hnone] at hread
    cases hread
  have hsame : sk' = sk := Option.some.inj (hsk'.symm.trans hsk)
  rw [hinterest, hsame, hwithin.2.1 (connect_of_dispatch hdispatch)] at hconnect
  cases hconnect

theorem Core.handleConnected (hc : h.Core) {finish : Finish} {ops : List CallbackOp}
    (hstate : h.state ≠ some .connected)
    (hgood : h.state = some .pending → finish = .done → .close ∈ ops) :
    (handleConnected finish ops h).1.Core := by
  unfold TcpHandler.handleConnected
  split
  · exact hc
  · next sc hsc =>
    have heq : h.state = some sc.state := by rw [state, hsc, Option.map_some]
    split
    · exact hc
    · next hpending =>
      rw [hpending] at heq
      split
      · -- `onConnected` closes the handler
        have hbit : (h.setState .connected).interest.connect = true := by
          rw [setState_interest]
          exact (hc.pending heq).1
        have hclosed := callback_closes hbit (hgood heq rfl)
        refine .of_closed (andThen_keeps (P := fun t => t.state = some .closed) hclosed ?_)
        exact fun t ht => (registerEvent_state OP_READ t).trans ht
      · exact hc
      · exact .of_closed (callback_closed (closeChannel_state hsc) ops)
    · next hconnected =>
      rw [hconnected] at heq
      exact absurd heq hstate
    · exact hc.callback ops

theorem Core.step (hc : h.Core) {ev : Event} (hgood : h.Good ev) (hstep : h.step ev = some t) :
    t.Core := by
  cases ev with
  | connect result =>
    cases hstep
    cases result with
    | immediate => exact hgood.elim
    | pending =>
      obtain ⟨hstate, hinterest⟩ : (connect .pending h).1.state = some .pending ∧
          (connect .pending h).1.interest = OP_CONNECT := registered hgood (by decide) OP_CONNECT
      refine ⟨fun _ => ?_, fun hconnected => ?_⟩
      · rw [hinterest]
        exact ⟨rfl, rfl⟩
      · cases hstate.symm.trans hconnected
    | failed => exact .of_closed rfl
    | unresolved =>
      exact .of_gone (by simp [connect, setChannel, state]) (by simp [connect, setChannel, state])
  | accept =>
    cases hstep
    obtain ⟨hstate, hinterest⟩ : (accept h).1.state = some .connected ∧
        (accept h).1.interest = OP_READ := registered hgood (by decide) OP_READ
    refine ⟨fun hpending => ?_, fun _ => ?_⟩
    · cases hstate.symm.trans hpending
    · rw [hinterest]
      exact ⟨rfl, rfl⟩
  | poll ready finish ops =>
    rw [TcpHandler.step] at hstep
    split at hstep
    · next hmay =>
      cases hstep
      cases hdispatch : dispatch ready with
      | none => exact hc
      | some method =>
        cases method with
        | handleAccept => exact hc
        | handleConnected =>
          exact hc.handleConnected (hc.not_connected hmay hdispatch) (hgood hdispatch)
        | handleRead => exact hc.callback ops
        | handleWrite =>
          exact andThen_keeps (hc.same (cancelWrite_same h)) fun _ ht => ht.callback ops
    · cases hstep
  | call op =>
    cases hstep
    exact hc.perform op

/-- A connection that has been completed is still waited for. -/
theorem stale_connect {finish : Finish} {ops : List CallbackOp} (hc : h.Core)
    (hpending : h.state = some .pending) (hfinish : finish = .done) (hclose : .close ∉ ops) :
    (TcpHandler.handleConnected finish ops h).1.state = some .connected ∧
      (TcpHandler.handleConnected finish ops h).1.interest.connect = true := by
  obtain ⟨sc, hsc, hstate⟩ := Option.map_eq_some_iff.mp hpending
  have hstart : (h.setState .connected).state = some .connected ∧
      (h.setState .connected).interest.connect = true :=
    ⟨setState_state hsc _, by rw [setState_interest]; exact (hc.pending hpending).1⟩
  have heq : TcpHandler.handleConnected finish ops h =
      (TcpHandler.callback ops).andThen (registerEvent OP_READ) (h.setState .connected) := by
    unfold TcpHandler.handleConnected
    rw [hsc, hfinish]
    dsimp only
    rw [hstate]
  rw [heq]
  let P : TcpHandler → Prop := fun t => t.state = some .connected ∧ t.interest.connect = true
  refine andThen_keeps (P := P) (callback_keeps (P := P) ?_ hstart) ?_
  · intro op hop t ht
    have hsame := perform_same (fun heq => hclose (heq ▸ hop)) t
    refine ⟨?_, ?_⟩
    · rw [state, hsame.sc]
      exact ht.1
    · rw [hsame.connect]
      exact ht.2
  · intro t ht
    refine ⟨(registerEvent_state OP_READ t).trans ht.1, ?_⟩
    obtain ⟨sc', sk, -, hsk, -⟩ := exists_key_of_connect ht.2
    rcases registerEvent_cases OP_READ t with heq | ⟨hnone, -⟩ | ⟨sk', hsk', heq⟩
    · rw [heq]
      exact ht.2
    · rw [hsk] at hnone
      cases hnone
    · rw [heq, interest_setKey hsk' Ops.connect]
      · exact ht.2
      · exact Bool.or_false _

theorem not_core_of_step (hs : h.Sound) (hc : h.Core) {ev : Event} (hbad : ¬h.Good ev)
    (hstep : h.step ev = some t) : ¬t.Core := by
  cases ev with
  | connect result =>
    cases hstep
    cases result with
    | immediate =>
      intro hcore
      have hread := (hcore.connected rfl).1
      have heq : (connect .immediate h).1 = h.setChannel .connected := rfl
      rw [heq] at hread
      obtain ⟨sc, sk, hsc, hsk, hid, -, -⟩ := exists_key fun hnone => by
        rw [hnone] at hread
        cases hread
      cases hsc
      exact absurd hid (Nat.ne_of_lt (hs.keys sk hsk).1)
    | pending =>
      obtain ⟨hstate, hinterest⟩ : (connect .pending h).1.state = some .pending ∧
          (connect .pending h).1.interest = Ops.none := not_registered hs hbad .pending OP_CONNECT
      intro hcore
      have hconnect := (hcore.pending hstate).1
      rw [hinterest] at hconnect
      cases hconnect
    | failed => exact absurd trivial hbad
    | unresolved => exact absurd trivial hbad
  | accept =>
    cases hstep
    obtain ⟨hstate, hinterest⟩ : (accept h).1.state = some .connected ∧
        (accept h).1.interest = Ops.none := not_registered hs hbad .connected OP_READ
    intro hcore
    have hread := (hcore.connected hstate).1
    rw [hinterest] at hread
    cases hread
  | poll ready finish ops =>
    rw [TcpHandler.step] at hstep
    split at hstep
    · cases hstep
      simp only [Good, Classical.not_imp] at hbad
      obtain ⟨hdispatch, hpending, hfinish, hclose⟩ := hbad
      obtain ⟨hconnected, hconnect⟩ := stale_connect hc hpending hfinish hclose
      intro hcore
      rw [hdispatch] at hcore
      have hfalse := (hcore.connected hconnected).2
      rw [show handle finish ops (some .handleConnected) h = handleConnected finish ops h from rfl,
        hconnect] at hfalse
      cases hfalse
    · cases hstep
  | call op => exact absurd trivial hbad

/-! ## Runs -/

theorem Follows.core (hf : h.Follows) : h.Core := ⟨hf.pending, hf.connected⟩

structure Inv (h : TcpHandler) : Prop where
  sound : h.Sound
  core : h.Core

theorem inv_create : create.Inv where
  sound := ⟨by simp [create], by simp [create]⟩
  core := .of_gone (by decide) (by decide)

theorem Inv.step (hi : h.Inv) {ev : Event} (hgood : h.Good ev) (hstep : h.step ev = some t) :
    t.Inv :=
  ⟨hi.sound.step hstep, hi.core.step hgood hstep⟩

/-- What `select` may report of a connection that is established. -/
theorem Inv.follows (hi : h.Inv) : h.Follows where
  pending := hi.core.pending
  connected := hi.core.connected
  delivers := by
    intro hstate ready hwithin hready
    obtain ⟨hread, hconnect⟩ := hi.core.connected hstate
    obtain ⟨sc, sk, -, hsk, -, -, hinterest⟩ := exists_key (h := h) fun hnone => by
      rw [hnone] at hread
      cases hread
    have haccept : h.interest.accept = false := by
      rw [hinterest]
      exact (hi.sound.keys sk hsk).2
    refine dispatch_read ?_ ?_ hready
    · exact Bool.eq_false_iff.mpr fun h' => by simp [hwithin.1 h'] at haccept
    · exact Bool.eq_false_iff.mpr fun h' => by simp [hwithin.2.1 h'] at hconnect
  once := by
    intro hstate ready hwithin hdispatch
    have hconnect := (hi.core.connected hstate).2
    rw [hwithin.2.1 (connect_of_dispatch hdispatch)] at hconnect
    cases hconnect

/--
**The interest set follows the connection as long as no connection is completed that has not been
accepted, and the handler has no second one.**
-/
theorem interest_follows_iff {es : List Event} (h : replay step create es = some t) :
    (∀ u, Visits step create es u → u.Follows) ↔ Along step create es Good :=
  exact_rule (fun _ hi => hi.follows) (fun _ _ _ hi hgood hstep => hi.step hgood hstep)
    (fun _ _ _ hi hbad hstep hfollows => not_core_of_step hi.sound hi.core hbad hstep hfollows.core)
    inv_create h

/-- A connection that is refused in the end, while a callback waits for `OP_WRITE`. -/
def refusedRun : List Event :=
  [.connect .pending, .call .registerWrite, .poll OP_CONNECT .notYet [], .poll OP_WRITE .notYet [],
    .poll OP_CONNECT .failed [.close]]

theorem refusedRun_follows : (replay step create refusedRun).isSome ∧
    ((∀ u, Visits step create refusedRun u → u.Follows) ↔
      Along step create refusedRun Good) :=
  ⟨by decide, interest_follows_iff (show replay step create refusedRun = some _ from rfl)⟩

/-- A connection that is there at once has no key, and one that is completed keeps `OP_CONNECT`. -/
theorem completed_not_follows :
    ¬ (∀ u, Visits step create [.connect .immediate] u → u.Follows) ∧
      ¬ (∀ u, Visits step create [.connect .pending, .poll OP_CONNECT .done []] u → u.Follows) := by
  refine ⟨fun h => ?_, fun h => ?_⟩
  · have := (h _ ⟨_, List.prefix_rfl, rfl⟩).connected rfl
    exact absurd this (by decide)
  · have := (h _ ⟨_, List.prefix_rfl, rfl⟩).connected rfl
    exact absurd this (by decide)

end TcpHandler

end Nwchecker.Network
