import Nwchecker.Java.Streams

/-!
# The blocking servers

`TCPServerThreadPool.java` and `TCPServerPerThread.java`, which serve a connection by the same loop.
Each turn of it makes a new `BufferedInputStream`, and takes what one call of `in.read` puts into
`inMessage` for the body.

So a message is read as it was sent as long as no read of the socket goes beyond its end, and no
read of its body but the first has to wait (`Whole`). `blockingServers_iff` says that, for the
lengths of the messages and the way the stream is cut, this is what decides.
-/

namespace Nwchecker.MultiThread

open Java Words

/-- `rsp.getBytes()` -/
def rsp : List UInt8 := "Hello Client!\n".toList.map fun c => UInt8.ofNat c.toNat

/-- How the loop is left. -/
inductive Ending where
  /-- An `EOFException`, which is caught. -/
  | endOfStream
  | thrown (e : RuntimeException)
  deriving DecidableEq, Repr

/-- What the loop has printed and written. Without an `ending` it is still running. -/
structure Served where
  bodies : List (List UInt8)
  written : List UInt8
  ending : Option Ending
  deriving DecidableEq, Repr

/-- A turn of the loop up to the response: `inMessage`, and what the socket has still to deliver. -/
def turn (input : SocketInput) : Except Ending (List UInt8 × SocketInput) :=
  match BufferedInput.readInt { buf := [], input := input } with
  | none => .error .endOfStream
  | some (msgLen, stream) =>
    if msgLen < 0 then .error (.thrown .negativeArraySize)
    else
      let (got, stream) := stream.read msgLen.toNat
      -- the array is cleared when it is made
      .ok (got ++ List.replicate (msgLen.toNat - got.length) 0, stream.input)

/-- A number of turns. -/
def turns : Nat → SocketInput → Served
  | 0, _ => { bodies := [], written := [], ending := none }
  | n + 1, input =>
    match turn input with
    | .error e => { bodies := [], written := [], ending := some e }
    | .ok (inMessage, input) =>
      { bodies := inMessage :: (turns n input).bodies
        written := frame rsp ++ (turns n input).written
        ending := (turns n input).ending }

/-- The whole loop. A turn takes four bytes at least, or is the last one. -/
def serve (input : SocketInput) : Served := turns (input.bytes.length + 1) input

/-- `TCPServerThreadPool.SockTask.call` -/
def sockTaskCall (sock : SocketInput) : Served := serve sock

/-- `TCPServerPerThread.run` -/
def perThreadRun (sock : SocketInput) : Served := serve sock

/-- The bodies are those that were sent, and there is one response for each. -/
structure Exact (sent : List (List UInt8)) (s : Served) : Prop where
  bodies : s.bodies = sent
  written : s.written = (List.replicate sent.length (frame rsp)).flatten
  ending : s.ending = some .endOfStream

/-! ## How a message has to arrive -/

/-- How many bytes the socket is asked for when `done` of the `m` bytes of a message are read. -/
def asked (m done : Nat) : Nat :=
  if 4 ≤ done then BufferedInput.request (m - done) else DEFAULT_BUFFER_SIZE

/--
From when `done` of the `m` bytes of a message are read, to its end: no read goes beyond it, and
none that is made inside the body has to wait. The segments in front, and those that are left.
-/
inductive Whole (m : Nat) : Nat → List Segment → List Segment → Prop where
  | complete (segs : List Segment) : Whole m m segs segs
  | read {done : Nat} {seg : Segment} {segs rest : List Segment} (hlt : done < m)
      (hprompt : 4 < done → seg.prompt = true)
      (hwithin : done + min (asked m done) seg.size ≤ m)
      (hrest : Whole m (done + min (asked m done) seg.size)
        (seg.after (min (asked m done) seg.size) ++ segs) rest) : Whole m done (seg :: segs) rest

/-- All messages arrive whole, one after the other. `lens` are the lengths of their bodies. -/
inductive AllWhole : List Nat → List Segment → Prop where
  | nil : AllWhole [] []
  | cons {n : Nat} {lens : List Nat} {segs rest : List Segment} (hfirst : Whole (4 + n) 0 segs rest)
      (hrest : AllWhole lens rest) : AllWhole (n :: lens) segs

variable {m done n : Nat} {segs rest : List Segment}

theorem Whole.done_le (h : Whole m done segs rest) : done ≤ m := by
  cases h with
  | complete => exact Nat.le_refl _
  | read hlt => exact Nat.le_of_lt hlt

theorem Whole.at_end (h : Whole m m segs rest) : segs = rest := by
  cases h with
  | complete => rfl
  | read hlt => exact absurd hlt (Nat.lt_irrefl m)

/-- Inside a message there is a next segment. -/
theorem Whole.next (h : Whole m done segs rest) (hlt : done < m) :
    ∃ seg segs', segs = seg :: segs' ∧ (4 < done → seg.prompt = true) ∧
    Whole m (done + min (asked m done) seg.size)
      (seg.after (min (asked m done) seg.size) ++ segs') rest := by
  cases h with
  | complete => exact absurd hlt (Nat.lt_irrefl m)
  | read _ hprompt _ hrest => exact ⟨_, _, rfl, hprompt, hrest⟩

/-! ## The length -/

section Length

variable {b b' : BufferedInput}

/-- A byte of the length, of a message that arrives whole. -/
theorem Whole.readByte (h : Whole m (done + b.buf.length) b.input.segs rest) (hdone : done < 4)
    (hm : 4 ≤ m) : ∃ x b', b.readByte = some (x, b') ∧
      Whole m (done + 1 + b'.buf.length) b'.input.segs rest := by
  cases hbuf : b.buf with
  | cons x buf =>
    refine ⟨x, _, BufferedInput.readByte_buffered hbuf, ?_⟩
    rw [hbuf, List.length_cons, ← Nat.add_assoc, Nat.add_right_comm] at h
    exact h
  | nil =>
    rw [hbuf, List.length_nil, Nat.add_zero] at h
    obtain ⟨seg, segs', hsegs, -, hrest⟩ := h.next (by omega)
    rw [asked, if_neg (by omega)] at hrest
    obtain ⟨x, b', hx, hlen, hsegs'⟩ := BufferedInput.readByte_refill hbuf hsegs
    refine ⟨x, b', hx, ?_⟩
    rw [hsegs', Nat.add_assoc, hlen]
    exact hrest

theorem whole_of_readByte {x : UInt8} (hread : b.readByte = some (x, b')) (hdone : done < 4)
    (hm : 4 ≤ m) (h : Whole m (done + 1 + b'.buf.length) b'.input.segs rest) :
    Whole m (done + b.buf.length) b.input.segs rest := by
  cases hbuf : b.buf with
  | cons y buf =>
    rw [BufferedInput.readByte_buffered hbuf] at hread
    cases hread
    rw [List.length_cons, ← Nat.add_assoc, Nat.add_right_comm]
    exact h
  | nil =>
    rw [List.length_nil, Nat.add_zero]
    cases hsegs : b.input.segs with
    | nil =>
      have hend : b.readByte = none := by
        simp only [BufferedInput.readByte, hbuf, SocketInput.read_nil hsegs]
      rw [hend] at hread
      cases hread
    | cons seg segs' =>
      obtain ⟨x', b₁, hx, hlen, hsegs'⟩ := BufferedInput.readByte_refill hbuf hsegs
      rw [hx] at hread
      cases hread
      rw [hsegs', Nat.add_assoc, hlen] at h
      have hasked : asked m done = DEFAULT_BUFFER_SIZE := if_neg (by omega)
      refine Whole.read (by omega) (fun hlt => by omega) ?_ ?_
      · rw [hasked]
        exact h.done_le
      · rw [hasked]
        exact h

theorem Whole.readBytes (hm : 4 ≤ m) (hn : done + n = 4)
    (h : Whole m (done + b.buf.length) b.input.segs rest) : ∃ xs b',
      BufferedInput.readBytes n b = some (xs, b') ∧
        Whole m (4 + b'.buf.length) b'.input.segs rest := by
  induction n generalizing done b with
  | zero =>
    have hdone : done = 4 := by omega
    rw [hdone] at h
    exact ⟨[], b, rfl, h⟩
  | succ n ih =>
    obtain ⟨x, b₁, hx, h₁⟩ := h.readByte (by omega) hm
    obtain ⟨xs, b', hxs, h'⟩ := ih (show done + 1 + n = 4 by omega) h₁
    refine ⟨x :: xs, b', ?_, h'⟩
    simp only [BufferedInput.readBytes, hx, hxs]

theorem whole_of_readBytes {xs : List UInt8} (hm : 4 ≤ m) (hn : done + n = 4)
    (hread : BufferedInput.readBytes n b = some (xs, b'))
    (h : Whole m (4 + b'.buf.length) b'.input.segs rest) :
    Whole m (done + b.buf.length) b.input.segs rest := by
  induction n generalizing done b b' xs with
  | zero =>
    have hdone : done = 4 := by omega
    cases hread
    rw [hdone]
    exact h
  | succ n ih =>
    rw [BufferedInput.readBytes] at hread
    split at hread
    · cases hread
    · next x b₁ hx =>
      split at hread
      · cases hread
      · next ys b₂ hys =>
        cases hread
        have hrest := ih (show done + 1 + n = 4 by omega) hys h
        exact whole_of_readByte hx (by omega) hm hrest

/-! ## The body -/

theorem available_iff {input : SocketInput} {seg : Segment} {segs : List Segment}
    (h : input.segs = seg :: segs) : input.available = seg.prompt := by
  rw [SocketInput.available, h]

/-- What one pass of `in.read` takes, and that the buffer is empty behind it. -/
theorem Whole.read1 {len : Nat} (hm : done + len = m) (hdone : 4 ≤ done) (hpos : 0 < len)
    (h : Whole m (done + b.buf.length) b.input.segs rest) : ∃ got b₁,
      b.read1 len = some (got, b₁) ∧ 0 < got.length ∧ got.length ≤ len ∧ b₁.buf = [] ∧
        Whole m (done + got.length) b₁.input.segs rest := by
  have hle := h.done_le
  cases hbuf : b.buf with
  | cons x buf =>
    have hne : b.buf ≠ [] := by simp [hbuf]
    rw [hbuf] at h hle
    refine ⟨_, _, BufferedInput.read1_buffered hne len, ?_, ?_, ?_, ?_⟩
    · rw [hbuf, List.length_take, List.length_cons]
      omega
    · rw [List.length_take]
      omega
    · rw [hbuf]
      exact List.drop_of_length_le (by omega)
    · rw [hbuf, List.take_of_length_le (by omega)]
      exact h
  | nil =>
    rw [hbuf, List.length_nil, Nat.add_zero] at h
    obtain ⟨seg, segs', hsegs, -, hnext⟩ := h.next (by omega)
    have hpos' := seg.pos
    rw [asked, if_pos hdone, show m - done = len by omega] at hnext
    have hle' := hnext.done_le
    obtain ⟨got, b₁, h₁, hgot, hsum, hsegs'⟩ := BufferedInput.read1_refill hbuf hsegs len
    rw [Nat.min_eq_right (by omega)] at hgot
    have hask : 0 < BufferedInput.request len := by
      unfold BufferedInput.request DEFAULT_BUFFER_SIZE
      split
      · omega
      · omega
    refine ⟨got, b₁, h₁, by omega, by omega, List.length_eq_zero_iff.mp (by omega), ?_⟩
    rw [hsegs', hgot]
    exact hnext

/-- The loop of `in.read` takes the body of a message that arrives whole, and nothing is left in the
buffer. -/
theorem Whole.readLoop {passes len : Nat} (hm : done + len = m) (hdone : 4 ≤ done) (hpos : 0 < len)
    (hpasses : len ≤ passes) (h : Whole m (done + b.buf.length) b.input.segs rest) : ∃ got b',
      BufferedInput.readLoop passes b len = (got, b') ∧ got.length = len ∧ b'.buf = [] ∧
        b'.input.segs = rest := by
  induction passes generalizing len done b with
  | zero => omega
  | succ passes ih =>
    obtain ⟨got, b₁, h₁, hgot, hlen, hempty, hrest⟩ := h.read1 hm hdone hpos
    by_cases hall : len ≤ got.length
    · have hend : done + got.length = m := by omega
      rw [hend] at hrest
      refine ⟨got, b₁, ?_, by omega, hempty, hrest.at_end⟩
      simp only [BufferedInput.readLoop, h₁, if_pos hall]
    · obtain ⟨seg, segs', hsegs, hprompt, -⟩ := hrest.next (by omega)
      have havail : b₁.input.available = true := by
        rw [available_iff hsegs]
        exact hprompt (by omega)
      have hleft : Whole m (done + got.length + b₁.buf.length) b₁.input.segs rest := by
        rw [hempty]
        exact hrest
      have hsum : done + got.length + (len - got.length) = m := by omega
      obtain ⟨more, b', hmore, hlen', hempty', hrest'⟩ :=
        ih hsum (by omega) (by omega) (by omega) hleft
      refine ⟨got ++ more, b', ?_, ?_, hempty', hrest'⟩
      · simp only [BufferedInput.readLoop, h₁, if_neg hall, havail, hmore, if_true]
      · rw [List.length_append]
        omega

/-- A pass behind which the buffer is empty has not gone beyond what it was asked for. -/
theorem whole_of_read1 {len : Nat} {got : List UInt8} (hm : done + len = m) (hdone : 4 ≤ done)
    (hpos : 0 < len) (hprompt : b.buf = [] → 4 < done → b.input.available = true)
    (h : b.read1 len = some (got, b')) (hempty : b'.buf = [])
    (hrest : Whole m (done + got.length) b'.input.segs rest) :
    Whole m (done + b.buf.length) b.input.segs rest := by
  by_cases hbuf : b.buf = []
  · rw [hbuf, List.length_nil, Nat.add_zero]
    cases hsegs : b.input.segs with
    | nil =>
      rw [BufferedInput.read1_end hbuf hsegs] at h
      cases h
    | cons seg segs' =>
      obtain ⟨got', b₁, h₁, -, hsum, hsegs'⟩ := BufferedInput.read1_refill hbuf hsegs len
      rw [h₁] at h
      cases h
      rw [hempty, List.length_nil, Nat.add_zero] at hsum
      have hasked : asked m done = BufferedInput.request len := by
        rw [asked, if_pos hdone, show m - done = len by omega]
      rw [hsum, hsegs'] at hrest
      refine Whole.read (by omega) (fun hlt => ?_) ?_ ?_
      · rw [← available_iff hsegs]
        exact hprompt hbuf hlt
      · rw [hasked]
        exact hrest.done_le
      · rw [hasked]
        exact hrest
  · rw [BufferedInput.read1_buffered hbuf] at h
    cases h
    have hle : b.buf.length ≤ len := List.drop_eq_nil_iff.mp hempty
    rw [List.take_of_length_le hle] at hrest
    exact hrest

/-- Bytes are left in the buffer only by a pass that takes all it is asked for. -/
theorem read1_short {len : Nat} {got : List UInt8} (h : b.read1 len = some (got, b'))
    (hshort : got.length < len) : b'.buf = [] := by
  by_cases hbuf : b.buf = []
  · cases hsegs : b.input.segs with
    | nil =>
      rw [BufferedInput.read1_end hbuf hsegs] at h
      cases h
    | cons seg segs' =>
      obtain ⟨got', b₁, h₁, hgot, hsum, -⟩ := BufferedInput.read1_refill hbuf hsegs len
      rw [h₁] at h
      cases h
      exact List.length_eq_zero_iff.mp (by omega)
  · rw [BufferedInput.read1_buffered hbuf] at h
    cases h
    rw [List.length_take] at hshort
    exact List.drop_of_length_le (by omega)

/-- When `in.read` takes the whole body and leaves nothing in the buffer, the message has arrived
whole. -/
theorem whole_of_readLoop {passes len : Nat} {got : List UInt8} (hm : done + len = m)
    (hdone : 4 ≤ done) (hpos : 0 < len) (hprompt : b.buf = [] → 4 < done → b.input.available = true)
    (h : BufferedInput.readLoop passes b len = (got, b')) (hgot : got.length = len)
    (hempty : b'.buf = []) : Whole m (done + b.buf.length) b.input.segs b'.input.segs := by
  induction passes generalizing len done b b' got with
  | zero =>
    cases h
    rw [List.length_nil] at hgot
    omega
  | succ passes ih =>
    rw [BufferedInput.readLoop] at h
    split at h
    · cases h
      rw [List.length_nil] at hgot
      omega
    · next got₁ b₁ h₁ =>
      obtain ⟨-, hle, hpos₁⟩ := BufferedInput.read1_ahead hpos h₁
      split at h
      · next hall =>
        cases h
        refine whole_of_read1 hm hdone hpos hprompt h₁ hempty ?_
        rw [hgot, hm]
        exact Whole.complete _
      · next hshort =>
        have hempty₁ : b₁.buf = [] := read1_short h₁ (by omega)
        split at h
        · next havail =>
          obtain ⟨hgot', hb'⟩ := Prod.mk.inj h
          have hmore : (BufferedInput.readLoop passes b₁ (len - got₁.length)).1.length =
              len - got₁.length := by
            rw [← hgot', List.length_append] at hgot
            omega
          rw [← hb'] at hempty ⊢
          have hsum : done + got₁.length + (len - got₁.length) = m := by omega
          have hrest := ih hsum (by omega) (by omega) (fun _ _ => havail) rfl hmore hempty
          rw [hempty₁, List.length_nil, Nat.add_zero] at hrest
          exact whole_of_read1 hm hdone hpos hprompt h₁ hempty₁ hrest
        · cases h
          omega

end Length

/-! ## A turn of the loop -/

section Turn

variable {input input' : SocketInput} {body more : List UInt8}

/-- `readInt` at the start of a message. -/
theorem readInt_frame {b b' : BufferedInput} {xs : List UInt8}
    (hread : BufferedInput.readBytes 4 b = some (xs, b')) (hbody : body.length < 2147483648)
    (hahead : b.ahead = frame body ++ more) :
    b.readInt = some ((body.length : Int), b') ∧ b'.ahead = body ++ more := by
  obtain ⟨hxs, hlen⟩ := BufferedInput.readBytes_ahead hread
  rw [hahead, frame, List.append_assoc] at hxs
  obtain ⟨rfl, hrest⟩ := List.append_inj hxs (by rw [hlen, beBytes_length])
  refine ⟨?_, hrest⟩
  rw [BufferedInput.readInt, hread, Option.map_some]
  have hword := beWord_beBytes (UInt32.ofNat body.length) []
  rw [List.append_nil] at hword
  rw [hword, i32_length hbody]

/-- A message that arrives whole is read as it was sent. -/
theorem Whole.turn (hbody : body.length < 2147483648) (hbytes : input.bytes = frame body ++ more)
    (h : Whole (4 + body.length) 0 input.segs rest) : ∃ input', turn input = .ok (body, input') ∧
      input'.bytes = more ∧ input'.segs = rest := by
  obtain ⟨xs, b, hxs, hb⟩ : ∃ xs b,
      BufferedInput.readBytes 4 { buf := [], input := input } = some (xs, b) ∧
        Whole (4 + body.length) (4 + b.buf.length) b.input.segs rest :=
    Whole.readBytes (Nat.le_add_right 4 _) (show 0 + 4 = 4 from rfl) h
  obtain ⟨hint, hahead⟩ := readInt_frame hxs hbody hbytes
  obtain ⟨got, b', hread, hlen, hempty, hsegs⟩ : ∃ got b', b.read body.length = (got, b') ∧
      got.length = body.length ∧ b'.buf = [] ∧ b'.input.segs = rest := by
    by_cases hzero : body.length = 0
    · rw [hzero] at hb
      have hbuf : b.buf.length = 0 := by
        have := hb.done_le
        omega
      rw [hbuf] at hb
      refine ⟨[], b, ?_, hzero.symm, List.length_eq_zero_iff.mp hbuf, hb.at_end⟩
      rw [BufferedInput.read, if_pos hzero]
    · rw [BufferedInput.read, if_neg hzero]
      exact hb.readLoop rfl (Nat.le_refl 4) (by omega) (Nat.le_refl _)
  obtain ⟨hgot, -⟩ := BufferedInput.read_ahead hread
  rw [hahead, BufferedInput.ahead, hempty, List.nil_append] at hgot
  obtain ⟨rfl, hmore⟩ := List.append_inj hgot hlen
  refine ⟨b'.input, ?_, hmore, hsegs⟩
  rw [MultiThread.turn, hint]
  simp only [Int.toNat_natCast, hread, Nat.sub_self, List.replicate_zero, List.append_nil]
  rw [if_neg (by omega)]

/-- What a turn that comes to its end has read. -/
theorem turn_ok {inMessage : List UInt8} (h : turn input = .ok (inMessage, input')) :
    ∃ xs b got b', BufferedInput.readBytes 4 { buf := [], input := input } = some (xs, b) ∧
      b.read (i32 (beWord xs).toNat).toNat = (got, b') ∧
      inMessage = got ++ List.replicate ((i32 (beWord xs).toNat).toNat - got.length) 0 ∧
      input' = b'.input ∧
      4 + got.length + b'.buf.length + input'.bytes.length = input.bytes.length := by
  unfold turn BufferedInput.readInt at h
  split at h
  · cases h
  · next msgLen b hint =>
    split at h
    · cases h
    · obtain ⟨r, hread, hr⟩ := Option.map_eq_some_iff.mp hint
      obtain ⟨xs, b'⟩ := r
      obtain ⟨rfl, rfl⟩ := Prod.mk.inj hr
      cases hgot : b'.read (i32 (beWord xs).toNat).toNat with
      | mk got b₂ =>
      simp only [hgot] at h
      cases h
      obtain ⟨hxs, hlen⟩ := BufferedInput.readBytes_ahead hread
      obtain ⟨hgot', -⟩ := BufferedInput.read_ahead hgot
      refine ⟨xs, b', got, b₂, hread, hgot, rfl, rfl, ?_⟩
      have h₁ := congrArg List.length hxs
      have h₂ := congrArg List.length hgot'
      simp only [BufferedInput.ahead, List.length_append, List.nil_append, hlen] at h₁ h₂
      omega

/-- A read that is short leaves a zero in the array. -/
theorem replicate_of_noZero {got body : List UInt8} {n : Nat}
    (h : body = got ++ List.replicate (n - got.length) 0) (hzero : 0 ∉ body) :
    body = got ∧ n ≤ got.length := by
  by_cases hle : n ≤ got.length
  · rw [Nat.sub_eq_zero_of_le hle, List.replicate_zero, List.append_nil] at h
    exact ⟨h, hle⟩
  · refine absurd ?_ hzero
    rw [h]
    exact List.mem_append_right _ (List.mem_replicate.mpr ⟨by omega, rfl⟩)

/-- When a turn reads the message in front, and loses nothing of those behind it, the message has
arrived whole. -/
theorem whole_of_turn (hbody : body.length < 2147483648) (hbytes : input.bytes = frame body ++ more)
    (hzero : 0 ∉ body) (h : turn input = .ok (body, input'))
    (hmore : more.length ≤ input'.bytes.length) :
    Whole (4 + body.length) 0 input.segs input'.segs ∧ input'.bytes = more := by
  obtain ⟨xs, b, got, b', hxs, hread, hgot, rfl, hlen⟩ := turn_ok h
  obtain ⟨hint, hahead⟩ := readInt_frame hxs hbody hbytes
  have hn : i32 (beWord xs).toNat = body.length := by
    rw [BufferedInput.readInt, hxs, Option.map_some] at hint
    exact (Prod.mk.inj (Option.some.inj hint)).1
  rw [hn, Int.toNat_natCast] at hread hgot
  obtain ⟨rfl, -⟩ := replicate_of_noZero hgot hzero
  have hempty : b'.buf = [] := by
    rw [hbytes, List.length_append, frame_length] at hlen
    exact List.length_eq_zero_iff.mp (by omega)
  obtain ⟨hrest, -⟩ := BufferedInput.read_ahead hread
  rw [hahead, List.append_cancel_left_eq, BufferedInput.ahead, hempty, List.nil_append] at hrest
  refine ⟨?_, hrest⟩
  have hlater : Whole (4 + body.length) (4 + b.buf.length) b.input.segs b'.input.segs := by
    by_cases hnil : body.length = 0
    · rw [BufferedInput.read, if_pos hnil] at hread
      cases hread
      rw [hnil, hempty]
      exact Whole.complete _
    · rw [BufferedInput.read, if_neg hnil] at hread
      exact whole_of_readLoop rfl (Nat.le_refl 4) (by omega) (fun _ hlt => absurd hlt (by omega))
        hread rfl hempty
  have hwhole := whole_of_readBytes (Nat.le_add_right 4 _) (show 0 + 4 = 4 from rfl) hxs hlater
  exact hwhole

end Turn

/-! ## The whole loop -/

/-- Messages that all arrive whole. -/
theorem AllWhole.turns {sent : List (List UInt8)} {input : SocketInput}
    (hsent : ∀ body ∈ sent, body.length < 2147483648)
    (hbytes : input.bytes = (sent.map frame).flatten)
    (h : AllWhole (sent.map List.length) input.segs) {k : Nat} (hk : sent.length < k) :
    Exact sent (turns k input) := by
  induction sent generalizing input k with
  | nil =>
    obtain ⟨k, rfl⟩ : ∃ j, k = j + 1 := ⟨k - 1, by omega⟩
    have hend : turn input = .error .endOfStream := by
      have hread : BufferedInput.readBytes 4 { buf := [], input := input } = none := by
        cases hxs : BufferedInput.readBytes 4 { buf := [], input := input } with
        | none => rfl
        | some r =>
          have hlen := congrArg List.length (BufferedInput.readBytes_ahead hxs).1
          rw [List.length_append, (BufferedInput.readBytes_ahead hxs).2] at hlen
          simp [BufferedInput.ahead, hbytes] at hlen
      rw [MultiThread.turn, BufferedInput.readInt, hread]
      rfl
    rw [MultiThread.turns, hend]
    exact ⟨rfl, rfl, rfl⟩
  | cons body sent ih =>
    obtain ⟨k, rfl⟩ : ∃ j, k = j + 1 := ⟨k - 1, by omega⟩
    rw [List.map_cons] at h
    rw [List.map_cons, List.flatten_cons] at hbytes
    cases h with
    | cons hfirst hrest =>
      obtain ⟨input', hturn, hbytes', hsegs⟩ :=
        hfirst.turn (hsent body List.mem_cons_self) hbytes
      rw [← hsegs] at hrest
      rw [List.length_cons] at hk
      have htail := ih (fun b hb => hsent b (List.mem_cons_of_mem _ hb)) hbytes' hrest
        (show sent.length < k by omega)
      rw [MultiThread.turns, hturn]
      refine { bodies := ?_, written := ?_, ending := htail.ending }
      · exact congrArg (body :: ·) htail.bodies
      · exact congrArg (frame rsp ++ ·) htail.written

/-- Bodies without a zero have been read in full. -/
theorem turns_length {k : Nat} {input : SocketInput} {sent : List (List UInt8)}
    (h : (turns k input).bodies = sent) (hzero : ∀ body ∈ sent, 0 ∉ body) :
    (sent.map frame).flatten.length ≤ input.bytes.length := by
  induction k generalizing input sent with
  | zero =>
    subst h
    exact Nat.zero_le _
  | succ k ih =>
    rw [MultiThread.turns] at h
    split at h
    · subst h
      exact Nat.zero_le _
    · next inMessage input' hturn =>
      subst h
      obtain ⟨xs, b, got, b', -, -, hgot, -, hlen⟩ := turn_ok hturn
      obtain ⟨rfl, -⟩ := replicate_of_noZero hgot (hzero inMessage List.mem_cons_self)
      have htail := ih rfl (fun body hbody => hzero body (List.mem_cons_of_mem _ hbody))
      rw [List.map_cons, List.flatten_cons, List.length_append, frame_length]
      omega

/-- Messages without a zero in their bodies arrive whole when their bodies are what is read. -/
theorem allWhole_of_turns {sent : List (List UInt8)} {input : SocketInput}
    (hsent : ∀ body ∈ sent, body.length < 2147483648) (hzero : ∀ body ∈ sent, 0 ∉ body)
    (hbytes : input.bytes = (sent.map frame).flatten) {k : Nat}
    (h : (turns k input).bodies = sent) : AllWhole (sent.map List.length) input.segs := by
  induction sent generalizing input k with
  | nil =>
    have hfits := input.fits
    rw [hbytes] at hfits
    cases hsegs : input.segs with
    | nil => exact AllWhole.nil
    | cons seg segs =>
      have := seg.pos
      rw [hsegs, total_cons] at hfits
      simp only [List.map_nil, List.flatten_nil, List.length_nil] at hfits
      omega
  | cons body sent ih =>
    cases k with
    | zero => cases h
    | succ k =>
      rw [MultiThread.turns] at h
      split at h
      · cases h
      · next inMessage input' hturn =>
        obtain ⟨rfl, htail⟩ := List.cons.inj h
        rw [List.map_cons, List.flatten_cons] at hbytes
        have hzero' : ∀ b ∈ sent, 0 ∉ b := fun b hb => hzero b (List.mem_cons_of_mem _ hb)
        obtain ⟨hfirst, hbytes'⟩ := whole_of_turn (hsent _ List.mem_cons_self) hbytes
          (hzero _ List.mem_cons_self) hturn (turns_length htail hzero')
        exact AllWhole.cons hfirst
          (ih (fun b hb => hsent b (List.mem_cons_of_mem _ hb)) hzero' hbytes' htail)

theorem length_le_frames (sent : List (List UInt8)) :
    sent.length ≤ (sent.map frame).flatten.length := by
  induction sent with
  | nil => exact Nat.le_refl 0
  | cons body sent ih =>
    rw [List.map_cons, List.flatten_cons, List.length_append, frame_length, List.length_cons]
    omega

/--
**When the blocking servers read exactly the messages sent.**

For lengths of bodies, and a segmentation of the whole stream: both servers read every sequence of
messages with these lengths as it was sent, one response a message, exactly if all messages arrive
whole.
-/
theorem blockingServers_iff (lens : List Nat) (hlens : ∀ n ∈ lens, n < 2147483648)
    (segs : List Segment) (htotal : total segs = (lens.map (4 + ·)).sum) :
    (∀ (sent : List (List UInt8)) (sock : SocketInput), sent.map List.length = lens →
      sock.bytes = (sent.map frame).flatten → sock.segs = segs →
        Exact sent (sockTaskCall sock) ∧ Exact sent (perThreadRun sock)) ↔ AllWhole lens segs := by
  constructor
  · intro hall
    have hlength : (lens.map fun n => List.replicate n (255 : UInt8)).map List.length = lens := by
      simp [Function.comp_def]
    have hbytes : (((lens.map fun n => List.replicate n (255 : UInt8)).map frame).flatten).length =
        total segs := by
      simp [htotal, List.length_flatten, Function.comp_def]
    have hexact := hall _ ⟨_, segs, hbytes⟩ hlength rfl rfl
    have hturns : (turns _ ⟨_, segs, hbytes⟩).bodies = _ := hexact.1.bodies
    have hwhole := allWhole_of_turns ?_ ?_ (by rfl) hturns
    · rwa [hlength] at hwhole
    · intro body hbody
      obtain ⟨n, hn, rfl⟩ := List.mem_map.mp hbody
      rw [List.length_replicate]
      exact hlens n hn
    · intro body hbody hmem
      obtain ⟨n, -, rfl⟩ := List.mem_map.mp hbody
      exact absurd (List.eq_of_mem_replicate hmem) (by decide)
  · intro hwhole sent sock hlength hbytes hsegs
    have hsent : ∀ body ∈ sent, body.length < 2147483648 := by
      intro body hbody
      refine hlens _ ?_
      rw [← hlength]
      exact List.mem_map_of_mem hbody
    have hmessages : sent.length < sock.bytes.length + 1 := by
      have := length_le_frames sent
      rw [hbytes]
      omega
    rw [← hlength, ← hsegs] at hwhole
    exact ⟨hwhole.turns hsent hbytes hmessages, hwhole.turns hsent hbytes hmessages⟩

def Segment.of (size : Nat) (h : 0 < size) : Segment := { size := size, pos := h, prompt := false }

/-- Two messages, one after the other; the length and the body of the first come apart. -/
def inTurn : SocketInput where
  bytes := [0, 0, 0, 1, 65, 0, 0, 0, 1, 66]
  segs := [Segment.of 4 (by decide), Segment.of 1 (by decide), Segment.of 5 (by decide)]
  fits := by decide

theorem inTurn_exact : Exact [[65], [66]] (sockTaskCall inTurn) := by
  have hfirst : Whole 5 0 inTurn.segs [Segment.of 5 (by decide)] :=
    Whole.read (by decide) (by decide) (by decide)
      (Whole.read (by decide) (by decide) (by decide) (Whole.complete _))
  have hsecond : Whole 5 0 [Segment.of 5 (by decide)] [] :=
    Whole.read (by decide) (by decide) (by decide) (Whole.complete _)
  exact ((blockingServers_iff [1, 1] (by decide) inTurn.segs (by decide)).mpr
    (AllWhole.cons hfirst (AllWhole.cons hsecond AllWhole.nil)) [[65], [66]] inTurn rfl (by decide)
      rfl).1

/-- The same messages in one segment. -/
def together : SocketInput where
  bytes := [0, 0, 0, 1, 65, 0, 0, 0, 1, 66]
  segs := [Segment.of 10 (by decide)]
  fits := by decide

/-- What has been read ahead is lost with the stream. -/
theorem together_lost : together.bytes = ([[65], [66]].map frame).flatten ∧
    ¬Exact [[65], [66]] (sockTaskCall together) := by
  refine ⟨by decide, fun h => ?_⟩
  have hbodies : (sockTaskCall together).bodies = [[65]] := by decide +kernel
  rw [h.bodies] at hbodies
  cases hbodies

end Nwchecker.MultiThread
