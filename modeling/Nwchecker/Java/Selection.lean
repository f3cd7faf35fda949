import Nwchecker.Lib.Buffer
import Nwchecker.Lib.Words

/-!
# What the Java programs share

The unchecked exceptions that they run into, statements that may throw one, the keys of a selector,
the messages that they send, and the integers in a byte buffer.
-/

namespace Nwchecker.Java

open Buffers Words

/-- The exceptions that no `throws` clause names. -/
inductive RuntimeException where
  | bufferOverflow
  | bufferUnderflow
  | cancelledKey
  | indexOutOfBounds
  | negativeArraySize
  | noConnectionPending
  | nullPointer
  | readPending
  | unresolvedAddress
  | writePending
  deriving DecidableEq, Repr

/-! ## Statements -/

/-- A statement changes a state and may throw. What it has changed by then stays. -/
abbrev Stmt (σ : Type) : Type := σ → σ × Option RuntimeException

namespace Stmt

variable {σ : Type} {a b : Stmt σ} {s : σ}

/-- `a; b` -/
def andThen (a b : Stmt σ) : Stmt σ := fun s =>
  match a s with
  | (s, none) => b s
  | (s, some e) => (s, some e)

/-- `try { a } catch (Exception e) { }` -/
def attempt (a : Stmt σ) : Stmt σ := fun s => ((a s).1, none)

theorem andThen_of_none (h : (a s).2 = none) : a.andThen b s = b (a s).1 := by
  unfold andThen
  cases hrun : a s with
  | mk t e =>
    rw [hrun] at h
    cases h
    rfl

theorem andThen_of_ne (h : (a s).2 ≠ none) : a.andThen b s = a s := by
  unfold andThen
  cases hrun : a s with
  | mk t e =>
    rw [hrun] at h
    cases e with
    | none => exact absurd rfl h
    | some e => rfl

theorem andThen_none :
    (a.andThen b s).2 = none ↔ (a s).2 = none ∧ (b (a s).1).2 = none := by
  by_cases h : (a s).2 = none
  · rw [andThen_of_none h, h, eq_self, true_and]
  · rw [andThen_of_ne h]
    exact ⟨fun h' => absurd h' h, fun h' => absurd h'.1 h⟩

end Stmt

/-! ## Keys -/

/-- An `int` of operation bits. -/
structure Ops where
  read : Bool
  write : Bool
  connect : Bool
  accept : Bool
  deriving DecidableEq, Repr

namespace Ops

def none : Ops := ⟨false, false, false, false⟩

/-- `a | b` -/
def add (a b : Ops) : Ops :=
  ⟨a.read || b.read, a.write || b.write, a.connect || b.connect, a.accept || b.accept⟩

/-- `a & (~b)` -/
def cancel (a b : Ops) : Ops :=
  ⟨a.read && !b.read, a.write && !b.write, a.connect && !b.connect, a.accept && !b.accept⟩

end Ops

def OP_READ : Ops := { Ops.none with read := true }
def OP_WRITE : Ops := { Ops.none with write := true }
def OP_CONNECT : Ops := { Ops.none with connect := true }

/-- A key is valid until it is cancelled or its channel is closed. -/
structure SelectionKey where
  valid : Bool
  ops : Ops
  deriving DecidableEq, Repr

namespace SelectionKey

/-- `interestOps()`, and every other question about the operations. -/
def interestOps (sk : SelectionKey) : Except RuntimeException Ops :=
  if sk.valid then .ok sk.ops else .error .cancelledKey

/-- `interestOps(ops)` -/
def setInterestOps (sk : SelectionKey) (ops : Ops) : Except RuntimeException SelectionKey :=
  if sk.valid then .ok { sk with ops := ops } else .error .cancelledKey

def cancel (sk : SelectionKey) : SelectionKey := { sk with valid := false }

variable {sk : SelectionKey}

@[simp] theorem interestOps_valid (h : sk.valid = true) : sk.interestOps = .ok sk.ops := if_pos h

@[simp] theorem interestOps_cancelled (h : sk.valid = false) :
    sk.interestOps = .error .cancelledKey :=
  if_neg (by simp [h])

@[simp] theorem setInterestOps_valid (h : sk.valid = true) (ops : Ops) :
    sk.setInterestOps ops = .ok { sk with ops := ops } :=
  if_pos h

end SelectionKey

/-! ## Messages -/

/-- A message: four bytes that say how long the body is, and the body. -/
def frame (body : List UInt8) : List UInt8 := beBytes (UInt32.ofNat body.length) ++ body

@[simp] theorem frame_length (body : List UInt8) : (frame body).length = 4 + body.length := by
  rw [frame, List.length_append, beBytes_length]

theorem frame_drop (body : List UInt8) : (frame body).drop 4 = body :=
  List.drop_left' (beBytes_length _)

/-- The length is read as it was written. -/
theorem i32_length {body : List UInt8} (h : body.length < 2147483648) :
    i32 (UInt32.ofNat body.length).toNat = body.length := by
  rw [UInt32.toNat_ofNat', Nat.mod_eq_of_lt (by omega)]
  exact i32_of_lt h

/-! ## Integers in a buffer -/

/-- `none` is a `BufferOverflowException`. -/
def putInt (buff : Buffer UInt8) (x : UInt32) : Option (Buffer UInt8) := buff.put (beBytes x)

/-- An `int` is signed. `none` is a `BufferUnderflowException`. -/
def getInt (buff : Buffer UInt8) : Option (Int × Buffer UInt8) :=
  (buff.get 4).map fun r => (i32 (beWord r.1).toNat, r.2)

end Nwchecker.Java
