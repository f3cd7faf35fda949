import Mathlib.Algebra.Order.BigOperators.Group.List
import Mathlib.Algebra.Order.Ring.Nat
import Nwchecker.Java.Selection

/-!
# Input streams

The input stream of a socket, `BufferedInputStream` over it, and `readInt` of `DataInputStream`, as
their documentation describes them. A read of the socket waits until something is there, and returns
what is there, up to what it is asked for.

What arrives together is a `Segment`. The bytes and the segments are kept apart, so that one can
speak of the same segmentation of other bytes.
-/

namespace Nwchecker.Java

open Words

/-- Bytes that arrive together. -/
structure Segment where
  size : Nat
  pos : 0 < size
  /-- They have arrived by the time that those before them have been read. -/
  prompt : Bool
  deriving DecidableEq, Repr

/-- What is left of a segment of which `n` bytes have been read. -/
def Segment.after (seg : Segment) (n : Nat) : List Segment :=
  if h : n < seg.size then
    [{ size := seg.size - n, pos := Nat.sub_pos_of_lt h, prompt := true }]
  else []

/-- The bytes of a list of segments. -/
def total (segs : List Segment) : Nat := (segs.map Segment.size).sum

@[simp] theorem total_cons (seg : Segment) (segs : List Segment) :
    total (seg :: segs) = seg.size + total segs := by
  simp [total]

theorem total_after (seg : Segment) {n : Nat} (h : n ≤ seg.size) (segs : List Segment) :
    total (seg.after n ++ segs) = seg.size - n + total segs := by
  unfold Segment.after
  split
  · simp
  · rw [List.nil_append]
    omega

/-- What a socket has still to deliver. -/
structure SocketInput where
  bytes : List UInt8
  segs : List Segment
  fits : bytes.length = total segs
  deriving DecidableEq, Repr

namespace SocketInput

/-- `read` for an array of `len` bytes. `none` is the end of the stream. -/
def read (input : SocketInput) (len : Nat) : Option (List UInt8 × SocketInput) :=
  match h : input.segs with
  | [] => none
  | seg :: segs =>
    let n := min len seg.size
    some (input.bytes.take n,
      { bytes := input.bytes.drop n
        segs := seg.after n ++ segs
        fits := by
          have := input.fits
          rw [h, total_cons] at this
          rw [total_after seg (Nat.min_le_right len seg.size), List.length_drop]
          omega })

/-- `available() > 0` -/
def available (input : SocketInput) : Bool :=
  match input.segs with
  | [] => false
  | seg :: _ => seg.prompt

variable {input : SocketInput}

theorem read_nil (h : input.segs = []) (len : Nat) : input.read len = none := by
  unfold read
  split
  · rfl
  · next seg segs hsegs =>
    rw [h] at hsegs
    cases hsegs

theorem read_cons {seg : Segment} {segs : List Segment} (h : input.segs = seg :: segs)
    (len : Nat) : ∃ input', input.read len = some (input.bytes.take (min len seg.size), input') ∧
      input'.bytes = input.bytes.drop (min len seg.size) ∧
      input'.segs = seg.after (min len seg.size) ++ segs ∧
      min len seg.size ≤ input.bytes.length := by
  have hfits := input.fits
  rw [h, total_cons] at hfits
  unfold read
  split
  · next hsegs =>
    rw [h] at hsegs
    cases hsegs
  · next seg' segs' hsegs =>
    rw [h] at hsegs
    cases hsegs
    exact ⟨_, rfl, rfl, rfl, by omega⟩

end SocketInput

/-- The size of the buffer of a `BufferedInputStream`. -/
def DEFAULT_BUFFER_SIZE : Nat := 8192

/-- `BufferedInputStream`: what it has read ahead, and the stream below it. -/
structure BufferedInput where
  buf : List UInt8
  input : SocketInput
  deriving DecidableEq, Repr

namespace BufferedInput

/-- `read()`. `none` is the end of the stream. -/
def readByte (b : BufferedInput) : Option (UInt8 × BufferedInput) :=
  match b.buf with
  | x :: buf => some (x, { b with buf := buf })
  | [] =>
    match b.input.read DEFAULT_BUFFER_SIZE with
    | some (x :: buf, input) => some (x, { buf := buf, input := input })
    | _ => none

/-- A read of the buffer, which is filled when it is empty. For a large array it is passed by. -/
def read1 (b : BufferedInput) (len : Nat) : Option (List UInt8 × BufferedInput) :=
  if b.buf = [] then
    if DEFAULT_BUFFER_SIZE ≤ len then
      (b.input.read len).map fun r => (r.1, { buf := [], input := r.2 })
    else
      (b.input.read DEFAULT_BUFFER_SIZE).map fun r =>
        (r.1.take len, { buf := r.1.drop len, input := r.2 })
  else some (b.buf.take len, { b with buf := b.buf.drop len })

/-- The loop of `read(byte[])`, which goes on as long as there is something that need not be waited
for. Each pass reads a byte at least, so that there are no more passes than bytes asked for. -/
def readLoop : Nat → BufferedInput → Nat → List UInt8 × BufferedInput
  | 0, b, _ => ([], b)
  | passes + 1, b, len =>
    match b.read1 len with
    | none => ([], b)
    | some (got, b) =>
      if len ≤ got.length then (got, b)
      else if b.input.available then
        let (more, b) := readLoop passes b (len - got.length)
        (got ++ more, b)
      else (got, b)

/-- `read(byte[])` for an array of `len` bytes: the bytes that it puts there. -/
def read (b : BufferedInput) (len : Nat) : List UInt8 × BufferedInput :=
  if len = 0 then ([], b) else readLoop len b len

/-- `n` bytes, one by one. -/
def readBytes : Nat → BufferedInput → Option (List UInt8 × BufferedInput)
  | 0, b => some ([], b)
  | n + 1, b =>
    match b.readByte with
    | none => none
    | some (x, b) =>
      match readBytes n b with
      | none => none
      | some (xs, b) => some (x :: xs, b)

/-- `readInt` of `DataInputStream`. `none` is an `EOFException`. -/
def readInt (b : BufferedInput) : Option (Int × BufferedInput) :=
  (readBytes 4 b).map fun r => (i32 (beWord r.1).toNat, r.2)

/-! ## What a read does to the segments -/

/-- How many bytes the socket is asked for when the buffer is empty. -/
def request (len : Nat) : Nat := if DEFAULT_BUFFER_SIZE ≤ len then len else DEFAULT_BUFFER_SIZE

variable {b b' : BufferedInput}

theorem readByte_buffered {x : UInt8} {buf : List UInt8} (h : b.buf = x :: buf) :
    b.readByte = some (x, { b with buf := buf }) := by
  rw [readByte, h]

theorem readByte_refill {seg : Segment} {segs : List Segment} (hbuf : b.buf = [])
    (hsegs : b.input.segs = seg :: segs) : ∃ x b', b.readByte = some (x, b') ∧
      1 + b'.buf.length = min DEFAULT_BUFFER_SIZE seg.size ∧
      b'.input.segs = seg.after (min DEFAULT_BUFFER_SIZE seg.size) ++ segs := by
  obtain ⟨input', hread, -, hsegs', hle⟩ := SocketInput.read_cons hsegs DEFAULT_BUFFER_SIZE
  have hpos := seg.pos
  have hlen : (b.input.bytes.take (min DEFAULT_BUFFER_SIZE seg.size)).length =
      min DEFAULT_BUFFER_SIZE seg.size := List.length_take_of_le hle
  cases htake : b.input.bytes.take (min DEFAULT_BUFFER_SIZE seg.size) with
  | nil =>
    -- a segment is not empty
    rw [htake, List.length_nil] at hlen
    unfold DEFAULT_BUFFER_SIZE at hlen
    omega
  | cons x buf =>
    rw [htake, List.length_cons] at hlen
    refine ⟨x, { buf := buf, input := input' }, ?_, ?_, hsegs'⟩
    · simp only [readByte, hbuf, hread, htake]
    · rw [← hlen, Nat.add_comm]

theorem read1_buffered (h : b.buf ≠ []) (len : Nat) :
    b.read1 len = some (b.buf.take len, { b with buf := b.buf.drop len }) := by
  rw [read1, if_neg h]

theorem read1_end (hbuf : b.buf = []) (hsegs : b.input.segs = []) (len : Nat) :
    b.read1 len = none := by
  rw [read1, if_pos hbuf, SocketInput.read_nil hsegs, SocketInput.read_nil hsegs]
  split
  · rfl
  · rfl

theorem read1_refill {seg : Segment} {segs : List Segment} (hbuf : b.buf = [])
    (hsegs : b.input.segs = seg :: segs) (len : Nat) : ∃ got b', b.read1 len = some (got, b') ∧
      got.length = min len (min (request len) seg.size) ∧
      got.length + b'.buf.length = min (request len) seg.size ∧
      b'.input.segs = seg.after (min (request len) seg.size) ++ segs := by
  obtain ⟨input', hread, -, hsegs', hle⟩ := SocketInput.read_cons hsegs (request len)
  unfold request at *
  by_cases hlarge : DEFAULT_BUFFER_SIZE ≤ len
  · rw [if_pos hlarge] at *
    refine ⟨b.input.bytes.take (min len seg.size), { buf := [], input := input' }, ?_, ?_, ?_,
      hsegs'⟩
    · rw [read1, if_pos hbuf, if_pos hlarge, hread]
      rfl
    · rw [List.length_take_of_le hle]
      omega
    · rw [List.length_take_of_le hle]
      rfl
  · rw [if_neg hlarge] at *
    refine
      ⟨(b.input.bytes.take (min DEFAULT_BUFFER_SIZE seg.size)).take len,
        { buf := (b.input.bytes.take (min DEFAULT_BUFFER_SIZE seg.size)).drop len
          input := input' }, ?_, ?_, ?_, hsegs'⟩
    · rw [read1, if_pos hbuf, if_neg hlarge, hread]
      rfl
    · rw [List.length_take, List.length_take_of_le hle]
    · rw [List.length_take, List.length_drop, List.length_take_of_le hle]
      omega

/-! ## What is read is what comes next -/

/-- What the stream has still to deliver, read ahead or not. -/
def ahead (b : BufferedInput) : List UInt8 := b.buf ++ b.input.bytes

theorem readByte_ahead {x : UInt8} (h : b.readByte = some (x, b')) : x :: b'.ahead = b.ahead := by
  unfold readByte at h
  split at h
  · next y buf hbuf =>
    cases h
    simp [ahead, hbuf]
  · next hbuf =>
    cases hsegs : b.input.segs with
    | nil =>
      rw [SocketInput.read_nil hsegs] at h
      cases h
    | cons seg segs =>
      obtain ⟨input', hread, hbytes, -, -⟩ :=
        SocketInput.read_cons hsegs DEFAULT_BUFFER_SIZE
      rw [hread] at h
      split at h
      · next y buf input heq =>
        cases h
        simp only [Option.some.injEq, Prod.mk.injEq] at heq
        obtain ⟨htake, rfl⟩ := heq
        rw [ahead, ahead, hbuf, hbytes, ← List.cons_append, ← htake, List.take_append_drop]
        rfl
      · cases h

theorem readBytes_ahead {n : Nat} {xs : List UInt8} (h : readBytes n b = some (xs, b')) :
    xs ++ b'.ahead = b.ahead ∧ xs.length = n := by
  induction n generalizing b b' xs with
  | zero =>
    cases h
    exact ⟨rfl, rfl⟩
  | succ n ih =>
    rw [readBytes] at h
    split at h
    · cases h
    · next x b₁ hx =>
      split at h
      · cases h
      · next ys b₂ hys =>
        cases h
        obtain ⟨hahead, hlen⟩ := ih hys
        refine ⟨?_, ?_⟩
        · rw [List.cons_append, hahead, readByte_ahead hx]
        · rw [List.length_cons, hlen]

theorem read1_ahead {len : Nat} (hpos : 0 < len) {got : List UInt8}
    (h : b.read1 len = some (got, b')) :
    got ++ b'.ahead = b.ahead ∧ got.length ≤ len ∧ 0 < got.length := by
  unfold read1 at h
  split at h
  · next hbuf =>
    cases hsegs : b.input.segs with
    | nil =>
      rw [SocketInput.read_nil hsegs, SocketInput.read_nil hsegs] at h
      split at h
      · cases h
      · cases h
    | cons seg segs =>
      have hsize := seg.pos
      split at h
      · next hlarge =>
        obtain ⟨input', hread, hbytes, -, hle⟩ := SocketInput.read_cons hsegs len
        rw [hread] at h
        cases h
        refine ⟨?_, ?_, ?_⟩
        · simp only [ahead, hbuf, hbytes, List.nil_append, List.take_append_drop]
        · rw [List.length_take]
          omega
        · rw [List.length_take]
          omega
      · obtain ⟨input', hread, hbytes, -, hle⟩ := SocketInput.read_cons hsegs DEFAULT_BUFFER_SIZE
        rw [hread] at h
        cases h
        have : 0 < DEFAULT_BUFFER_SIZE := by decide
        refine ⟨?_, ?_, ?_⟩
        · simp only [ahead, hbuf, hbytes, List.nil_append]
          rw [← List.append_assoc, List.take_append_drop, List.take_append_drop]
        · rw [List.length_take]
          omega
        · rw [List.length_take, List.length_take]
          omega
  · next hbuf =>
    cases h
    have := List.length_pos_iff.mpr hbuf
    refine ⟨?_, ?_, ?_⟩
    · simp only [ahead]
      rw [← List.append_assoc, List.take_append_drop]
    · rw [List.length_take]
      omega
    · rw [List.length_take]
      omega

theorem readLoop_ahead {passes len : Nat} {got : List UInt8} (hpos : 0 < len)
    (h : readLoop passes b len = (got, b')) : got ++ b'.ahead = b.ahead ∧ got.length ≤ len := by
  induction passes generalizing b b' len got with
  | zero =>
    cases h
    exact ⟨rfl, Nat.zero_le len⟩
  | succ passes ih =>
    rw [readLoop] at h
    split at h
    · cases h
      exact ⟨rfl, Nat.zero_le len⟩
    · next got₁ b₁ h₁ =>
      obtain ⟨hahead, hle, -⟩ := read1_ahead hpos h₁
      split at h
      · cases h
        exact ⟨hahead, hle⟩
      · next hlt =>
        split at h
        · have hleft : 0 < len - got₁.length := by omega
          obtain ⟨hahead', hle'⟩ := ih (b := b₁) hleft rfl
          cases h
          refine ⟨?_, ?_⟩
          · rw [List.append_assoc, hahead', hahead]
          · rw [List.length_append]
            omega
        · cases h
          exact ⟨hahead, hle⟩

theorem read_ahead {len : Nat} {got : List UInt8} (h : b.read len = (got, b')) :
    got ++ b'.ahead = b.ahead ∧ got.length ≤ len := by
  unfold read at h
  split at h
  · cases h
    exact ⟨rfl, Nat.zero_le len⟩
  · exact readLoop_ahead (by omega) h

end BufferedInput

end Nwchecker.Java
