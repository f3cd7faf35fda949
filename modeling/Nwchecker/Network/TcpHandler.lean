import Nwchecker.Lib.Machine
import Nwchecker.Network.Poller

/-!
# A `TcpHandler` over its life

`TcpHandler.java` and what it has of `SocketHandler.java`: `connect`, `accept`, what `poll` does for
the key of a handler, and what its callbacks do to it, in any order.

The fields `sc` and `sk` are `sc_` and `sk_`. A key knows its channel, for `connect` and `accept`
put another channel into `sc_` and leave `sk_` as it is.
-/

namespace Nwchecker.Network

open Java Machine

inductive ChannelState where
  | unconnected
  | pending
  | connected
  | closed
  deriving DecidableEq, Repr

structure SocketChannel where
  id : Nat
  state : ChannelState
  deriving DecidableEq, Repr

/-- A key, and the channel that it stands for. -/
structure ChannelKey where
  channel : Nat
  key : SelectionKey
  deriving DecidableEq, Repr

structure TcpHandler where
  sc : Option SocketChannel
  sk : Option ChannelKey
  /-- The number of channels there have been. -/
  channels : Nat
  deriving DecidableEq, Repr

/-- What `sc_.connect` comes to. -/
inductive Connecting where
  | immediate
  | pending
  /-- An `IOException`. The channel is closed then. -/
  | failed
  /-- An `UnresolvedAddressException`. -/
  | unresolved
  deriving DecidableEq, Repr

/-- What a callback does to its own handler. -/
inductive CallbackOp where
  | registerWrite
  | cancelWrite
  | close
  deriving DecidableEq, Repr

namespace TcpHandler

/-! ## The code -/

/-- A new handler. -/
def create : TcpHandler := { sc := none, sk := none, channels := 0 }

/-- `SocketHandler.registerEvent` -/
def registerEvent (ops : Ops) : Stmt TcpHandler := fun h =>
  match h.sk with
  | none =>
    match h.sc with
    | none => (h, some .nullPointer)
    | some sc =>
      -- a `ClosedChannelException` is for the caller to catch
      if sc.state = .closed then (h, none)
      else ({ h with sk := some { channel := sc.id, key := { valid := true, ops := ops } } }, none)
  | some sk =>
    match orInterest sk.key ops with
    | .error e => (h, some e)
    | .ok key => ({ h with sk := some { sk with key := key } }, none)

/-- `SocketHandler.cancelEvent` -/
def cancelEvent (ops : Ops) : Stmt TcpHandler := fun h =>
  match h.sk with
  | none => (h, none)
  | some sk =>
    match maskInterest sk.key ops with
    | .error e => (h, some e)
    | .ok key => ({ h with sk := some { sk with key := key } }, none)

/-- A new channel takes the place of `sc_`. -/
def setChannel (h : TcpHandler) (state : ChannelState) : TcpHandler :=
  { h with sc := some { id := h.channels, state := state }, channels := h.channels + 1 }

def setState (h : TcpHandler) (state : ChannelState) : TcpHandler :=
  { h with sc := h.sc.map fun sc => { sc with state := state } }

/-- `sc_.close()`, which cancels the key of the channel. -/
def closeChannel (h : TcpHandler) : TcpHandler :=
  { h.setState .closed with
    sk := h.sk.map fun sk =>
      if h.sc.map SocketChannel.id = some sk.channel then { sk with key := sk.key.cancel } else sk }

/-- `SocketHandler.close` -/
def close : Stmt TcpHandler := fun h =>
  match h.sk with
  | none => (h, some .nullPointer)
  | some sk =>
    let h := { h with sk := some { sk with key := sk.key.cancel } }
    match h.sc with
    | none => (h, some .nullPointer)
    | some _ => (h.closeChannel, none)

def connect (result : Connecting) : Stmt TcpHandler := fun h =>
  match result with
  | .immediate => (h.setChannel .connected, none)
  | .pending => registerEvent OP_CONNECT (h.setChannel .pending)
  | .failed => (h.setChannel .closed, none)
  | .unresolved => (h.setChannel .unconnected, some .unresolvedAddress)

/-- `accept`, for a channel that `ssc_.accept()` has returned. -/
def accept : Stmt TcpHandler := fun h => registerEvent OP_READ (h.setChannel .connected)

def perform : CallbackOp → Stmt TcpHandler
  | .registerWrite => registerEvent OP_WRITE
  | .cancelWrite => cancelEvent OP_WRITE
  | .close => close

/-- A callback. -/
def callback : List CallbackOp → Stmt TcpHandler
  | [] => fun h => (h, none)
  | op :: ops => (perform op).andThen (callback ops)

/-- `handle_connected`. The callback is `onConnected` or `onClose`. -/
def handleConnected (finish : Finish) (ops : List CallbackOp) : Stmt TcpHandler := fun h =>
  match h.sc with
  | none => (h, some .nullPointer)
  | some sc =>
    match sc.state with
    | .unconnected => (h, some .noConnectionPending)
    | .pending =>
      match finish with
      | .done => (callback ops).andThen (registerEvent OP_READ) (h.setState .connected)
      | .notYet => (h, none)
      | .failed => callback ops h.closeChannel
    -- `finishConnect` returns `true` once more
    | .connected => (callback ops).andThen (registerEvent OP_READ) h
    | .closed => callback ops h

def handleWrite (ops : List CallbackOp) : Stmt TcpHandler :=
  (cancelEvent OP_WRITE).andThen (callback ops)

/-- What `poll` calls. `handle_accept` is that of `SocketHandler`. -/
def handle (finish : Finish) (ops : List CallbackOp) : Option Method → Stmt TcpHandler
  | some .handleAccept => fun h => (h, none)
  | some .handleConnected => handleConnected finish ops
  | some .handleRead => callback ops
  | some .handleWrite => handleWrite ops
  | none => fun h => (h, none)

inductive Event where
  | connect (result : Connecting)
  | accept
  /-- `poll` comes to the key, with these operations ready. -/
  | poll (ready : Ops) (finish : Finish) (ops : List CallbackOp)
  /-- A callback of another handler, or an event of the thread. -/
  | call (op : CallbackOp)

/-- What `select` may say of the key. -/
def MayPoll (h : TcpHandler) (ready : Ops) : Prop :=
  ∃ sk ∈ h.sk, sk.key.valid = true ∧ Within ready sk.key.ops

instance (h : TcpHandler) (ready : Ops) : Decidable (h.MayPoll ready) :=
  match hsk : h.sk with
  | none => isFalse (by rintro ⟨sk, hmem, -⟩; rw [hsk] at hmem; cases hmem)
  | some sk => decidable_of_iff (sk.key.valid = true ∧ Within ready sk.key.ops)
      (by simp [MayPoll, hsk])

def step (h : TcpHandler) : Event → Option TcpHandler
  | .connect result => some (connect result h).1
  | .accept => some (accept h).1
  | .poll ready finish ops =>
    if h.MayPoll ready then some (handle finish ops (dispatch ready) h).1 else none
  | .call op => some (perform op h).1

variable {h t : TcpHandler}

/-! ## What the methods do -/

/-- `registerEvent` makes a key, or changes the one there is, or does nothing. -/
theorem registerEvent_cases (ops : Ops) (h : TcpHandler) :
    (registerEvent ops h).1 = h ∨
    (h.sk = none ∧ ∃ sc, h.sc = some sc ∧ (registerEvent ops h).1 =
      { h with sk := some { channel := sc.id, key := { valid := true, ops := ops } } }) ∨
    (∃ sk, h.sk = some sk ∧ (registerEvent ops h).1 =
      { h with sk := some { sk with key := { sk.key with ops := sk.key.ops.add ops } } }) := by
  obtain ⟨hsc, hsk, n⟩ := h
  cases hsk with
  | none =>
    cases hsc with
    | none => exact .inl rfl
    | some sc =>
      by_cases hclosed : sc.state = .closed
      · exact .inl (by simp [registerEvent, hclosed])
      · exact .inr (.inl ⟨rfl, sc, rfl, by simp [registerEvent, hclosed]⟩)
  | some sk =>
    cases hvalid : sk.key.valid with
    | true => exact .inr (.inr ⟨sk, rfl, by simp [registerEvent, orInterest_valid hvalid]⟩)
    | false => exact .inl (by simp [registerEvent, orInterest_cancelled hvalid])

theorem cancelEvent_cases (ops : Ops) (h : TcpHandler) :
    (cancelEvent ops h).1 = h ∨ ∃ sk, h.sk = some sk ∧ (cancelEvent ops h).1 =
      { h with sk := some { sk with key := { sk.key with ops := sk.key.ops.cancel ops } } } := by
  obtain ⟨hsc, hsk, n⟩ := h
  cases hsk with
  | none => exact .inl rfl
  | some sk =>
    cases hvalid : sk.key.valid with
    | true => exact .inr ⟨sk, rfl, by simp [cancelEvent, maskInterest_valid hvalid]⟩
    | false => exact .inl (by simp [cancelEvent, maskInterest_cancelled hvalid])

/-- `close` needs a key. -/
theorem close_cases (h : TcpHandler) : (close h).1 = h ∨ ∃ sk, h.sk = some sk ∧
    ((h.sc = none ∧ (close h).1 = { h with sk := some { sk with key := sk.key.cancel } }) ∨
      (close h).1 = closeChannel { h with sk := some { sk with key := sk.key.cancel } }) := by
  obtain ⟨hsc, hsk, n⟩ := h
  cases hsk with
  | none => exact .inl rfl
  | some sk =>
    cases hsc with
    | none => exact .inr ⟨sk, rfl, .inl ⟨rfl, rfl⟩⟩
    | some sc => exact .inr ⟨sk, rfl, .inr rfl⟩

/-! ## What the handler has at any time -/

/-- The keys are those of channels that there have been, and none waits for `OP_ACCEPT`. -/
structure Sound (h : TcpHandler) : Prop where
  keys : ∀ sk, h.sk = some sk → sk.channel < h.channels ∧ sk.key.ops.accept = false
  known : ∀ sc, h.sc = some sc → sc.id < h.channels

theorem Sound.setKey (hs : h.Sound) {sk : ChannelKey} (hlt : sk.channel < h.channels)
    (haccept : sk.key.ops.accept = false) : Sound { h with sk := some sk } where
  keys := by
    rintro _ ⟨⟩
    exact ⟨hlt, haccept⟩
  known := hs.known

theorem Sound.registerEvent (hs : h.Sound) {ops : Ops} (hops : ops.accept = false) :
    (registerEvent ops h).1.Sound := by
  rcases registerEvent_cases ops h with heq | ⟨-, sc, hsc, heq⟩ | ⟨sk, hsk, heq⟩
  · rw [heq]
    exact hs
  · rw [heq]
    exact hs.setKey (hs.known sc hsc) hops
  · obtain ⟨hlt, haccept⟩ := hs.keys sk hsk
    rw [heq]
    exact hs.setKey hlt (by simp [Ops.add, haccept, hops])

theorem Sound.cancelEvent (hs : h.Sound) (ops : Ops) : (cancelEvent ops h).1.Sound := by
  rcases cancelEvent_cases ops h with heq | ⟨sk, hsk, heq⟩
  · rw [heq]
    exact hs
  · obtain ⟨hlt, haccept⟩ := hs.keys sk hsk
    rw [heq]
    exact hs.setKey hlt (by simp [Ops.cancel, haccept])

theorem Sound.setChannel (hs : h.Sound) (state : ChannelState) : (h.setChannel state).Sound where
  keys := fun sk hsk => ⟨Nat.lt_succ_of_lt (hs.keys sk hsk).1, (hs.keys sk hsk).2⟩
  known := by
    rintro _ ⟨⟩
    exact Nat.lt_succ_self _

theorem Sound.setState (hs : h.Sound) (state : ChannelState) : (h.setState state).Sound where
  keys := hs.keys
  known := by
    intro sc hsc
    obtain ⟨sc', hsc', rfl⟩ := Option.map_eq_some_iff.mp hsc
    exact hs.known sc' hsc'

theorem Sound.closeChannel (hs : h.Sound) : h.closeChannel.Sound where
  keys := by
    intro sk hsk
    obtain ⟨sk', hsk', rfl⟩ := Option.map_eq_some_iff.mp hsk
    split
    · exact hs.keys sk' hsk'
    · exact hs.keys sk' hsk'
  known := (hs.setState .closed).known

theorem Sound.close (hs : h.Sound) : (close h).1.Sound := by
  rcases close_cases h with heq | ⟨sk, hsk, hclosed⟩
  · rw [heq]
    exact hs
  · obtain ⟨hlt, haccept⟩ := hs.keys sk hsk
    have hcancel : Sound { h with sk := some { sk with key := sk.key.cancel } } :=
      hs.setKey hlt haccept
    rcases hclosed with ⟨-, heq⟩ | heq
    · rw [heq]
      exact hcancel
    · rw [heq]
      exact hcancel.closeChannel

theorem Sound.perform (hs : h.Sound) (op : CallbackOp) : (perform op h).1.Sound := by
  cases op with
  | registerWrite => exact hs.registerEvent rfl
  | cancelWrite => exact hs.cancelEvent _
  | close => exact hs.close

/-- What two statements keep, they keep one after the other. -/
theorem andThen_keeps {P : TcpHandler → Prop} {a b : Stmt TcpHandler} (ha : P (a h).1)
    (hb : ∀ t, P t → P (b t).1) : P (a.andThen b h).1 := by
  by_cases hnone : (a h).2 = none
  · rw [Stmt.andThen_of_none hnone]
    exact hb _ ha
  · rw [Stmt.andThen_of_ne hnone]
    exact ha

theorem callback_keeps {P : TcpHandler → Prop} {ops : List CallbackOp}
    (hop : ∀ op ∈ ops, ∀ t, P t → P (perform op t).1) (hh : P h) : P (callback ops h).1 := by
  induction ops generalizing h with
  | nil => exact hh
  | cons op ops ih =>
    obtain ⟨hfirst, hrest⟩ := List.forall_mem_cons.mp hop
    exact andThen_keeps (hfirst h hh) fun _ ht => ih hrest ht

theorem Sound.callback (hs : h.Sound) (ops : List CallbackOp) : (callback ops h).1.Sound :=
  callback_keeps (fun op _ _ ht => ht.perform op) hs

theorem Sound.handle (hs : h.Sound) (finish : Finish) (ops : List CallbackOp)
    (method : Option Method) : (handle finish ops method h).1.Sound := by
  cases method with
  | none => exact hs
  | some method =>
    cases method with
    | handleAccept => exact hs
    | handleConnected =>
      have hregister : ∀ t : TcpHandler, t.Sound → (TcpHandler.registerEvent OP_READ t).1.Sound :=
        fun _ ht => ht.registerEvent rfl
      rw [TcpHandler.handle]
      unfold handleConnected
      split
      · exact hs
      · split
        · exact hs
        · split
          · exact andThen_keeps ((hs.setState .connected).callback ops) hregister
          · exact hs
          · exact hs.closeChannel.callback ops
        · exact andThen_keeps (hs.callback ops) hregister
        · exact hs.callback ops
    | handleRead => exact hs.callback ops
    | handleWrite => exact andThen_keeps (hs.cancelEvent OP_WRITE) fun _ ht => ht.callback ops

theorem Sound.step (hs : h.Sound) {ev : Event} (hstep : h.step ev = some t) : t.Sound := by
  cases ev with
  | connect result =>
    cases hstep
    cases result with
    | immediate => exact hs.setChannel _
    | pending => exact (hs.setChannel .pending).registerEvent rfl
    | failed => exact hs.setChannel _
    | unresolved => exact hs.setChannel _
  | accept =>
    cases hstep
    exact (hs.setChannel .connected).registerEvent rfl
  | poll ready finish ops =>
    rw [TcpHandler.step] at hstep
    split at hstep
    · cases hstep
      exact hs.handle finish ops _
    · cases hstep
  | call op =>
    cases hstep
    exact hs.perform op

end TcpHandler

end Nwchecker.Network
