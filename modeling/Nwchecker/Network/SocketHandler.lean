import Nwchecker.Java.Selection

/-!
# The handlers of `network`

What `SocketHandler.java` does to the key of a handler, and which of the methods of a handler
`Poller.poll` calls for it.
-/

namespace Nwchecker.Network

open Java

/-- `registerEvent` on a key: `sk_.interestOps(sk_.interestOps() | ops)` -/
def orInterest (sk : SelectionKey) (ops : Ops) : Except RuntimeException SelectionKey :=
  match sk.interestOps with
  | .error e => .error e
  | .ok interest => sk.setInterestOps (interest.add ops)

/-- `cancelEvent` on a key: `sk_.interestOps(sk_.interestOps() & (~ops))` -/
def maskInterest (sk : SelectionKey) (ops : Ops) : Except RuntimeException SelectionKey :=
  match sk.interestOps with
  | .error e => .error e
  | .ok interest => sk.setInterestOps (interest.cancel ops)

variable {sk : SelectionKey}

theorem orInterest_valid (h : sk.valid = true) (ops : Ops) :
    orInterest sk ops = .ok { sk with ops := sk.ops.add ops } := by
  simp only [orInterest, SelectionKey.interestOps_valid h, SelectionKey.setInterestOps_valid h]

theorem orInterest_cancelled (h : sk.valid = false) (ops : Ops) :
    orInterest sk ops = .error .cancelledKey := by
  simp only [orInterest, SelectionKey.interestOps_cancelled h]

theorem maskInterest_valid (h : sk.valid = true) (ops : Ops) :
    maskInterest sk ops = .ok { sk with ops := sk.ops.cancel ops } := by
  simp only [maskInterest, SelectionKey.interestOps_valid h, SelectionKey.setInterestOps_valid h]

theorem maskInterest_cancelled (h : sk.valid = false) (ops : Ops) :
    maskInterest sk ops = .error .cancelledKey := by
  simp only [maskInterest, SelectionKey.interestOps_cancelled h]

/-! ## What a key is visited for -/

/-- The methods that `poll` calls. -/
inductive Method where
  | handleAccept
  | handleConnected
  | handleRead
  | handleWrite
  deriving DecidableEq, Repr

/-- The questions of `poll`, in their order, to a key with these operations ready. -/
def dispatch (ready : Ops) : Option Method :=
  if ready.accept then some .handleAccept
  else if ready.connect then some .handleConnected
  else if ready.read then some .handleRead
  else if ready.write then some .handleWrite
  else none

theorem connect_of_dispatch {ready : Ops} (h : dispatch ready = some .handleConnected) :
    ready.connect = true := by
  unfold dispatch at h
  split at h
  · cases h
  · split at h
    · next hconnect => exact hconnect
    · split at h
      · cases h
      · split at h
        · cases h
        · cases h

theorem dispatch_read {ready : Ops} (haccept : ready.accept = false)
    (hconnect : ready.connect = false) (hread : ready.read = true) :
    dispatch ready = some .handleRead := by
  simp [dispatch, haccept, hconnect, hread]

/-- The first question is asked of a key that is cancelled too. -/
def question (sk : SelectionKey) (ready : Ops) : Except RuntimeException (Option Method) :=
  if sk.valid then .ok (dispatch ready) else .error .cancelledKey

/-- What is ready is waited for. -/
def Within (ready interest : Ops) : Prop :=
  (ready.accept → interest.accept) ∧ (ready.connect → interest.connect) ∧
    (ready.read → interest.read) ∧ (ready.write → interest.write)

instance (ready interest : Ops) : Decidable (Within ready interest) :=
  inferInstanceAs (Decidable (_ ∧ _ ∧ _ ∧ _))

end Nwchecker.Network
