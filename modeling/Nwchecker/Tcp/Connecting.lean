import Nwchecker.Lib.Machine
import Nwchecker.Tcp.Handler

/-!
# The callbacks of a connecting handler

A handler whose connect is in progress, the ready events that `nwc_epoll_run` dispatches to it,
and what it calls. `Mark`s note the calls in order.

`nwc_tcp_handle_input` does not look whether the handler is connecting, and
`nwc_tcp_handle_output` takes an `SO_ERROR` that is not on its list for success. The protocol of
the callbacks holds as long as neither happens (`callbackProtocol_iff`).
-/

namespace Nwchecker

open Machine

/-- What a callback or a worker does to the handler. -/
inductive UserOp where
  | send (call : SysCall Nat)
  | close

inductive Mark where
  /-- A callback is invoked. -/
  | call (cb : IoCallback)
  /-- `nwc_tcp_handle_output` makes the handler established, with this `SO_ERROR`. -/
  | left (soError : Int)
  | closed
  deriving DecidableEq, Repr

structure Dialog where
  handler : NwcTcpHandler
  marks : List Mark

namespace Dialog

def armed (s : Dialog) : Bool := s.handler.armed

def op (s : Dialog) : UserOp → Dialog
  | .send call => { s with handler := (nwcTcpHandlerSend s.handler call).2 }
  | .close =>
    if s.handler.state = .closed then s
    else { handler := nwcTcpHandlerClose s.handler, marks := s.marks ++ [.closed] }

def ops (s : Dialog) (l : List UserOp) : Dialog := l.foldl op s

def called (s : Dialog) (cb : IoCallback) : Dialog := { s with marks := s.marks ++ [.call cb] }

/-- The callback `cb` is invoked and does `l`. -/
def invoke (s : Dialog) (cb : IoCallback) (l : List UserOp) : Dialog := (s.called cb).ops l

/-- `nwc_tcp_handle_output` turns the handler into `h`. -/
def moved (s : Dialog) (h : NwcTcpHandler) (soError : Int) : Dialog where
  handler := h
  marks :=
    if s.handler.state = .connecting ∧ h.state = .established then s.marks ++ [.left soError]
    else s.marks

/-- `handle_input`, and the callback it ends with. -/
def handleInput (l : List UserOp) (s : Dialog) : Dialog :=
  match nwcTcpHandleInput s.handler with
  | some cb => s.invoke cb l
  | none => s

/-- `handle_output`, and the callback it ends with. -/
def handleOutput (soError : Int) (l : List UserOp) (s : Dialog) : Dialog :=
  match nwcTcpHandleOutput s.handler soError with
  | (h, some cb) => (s.moved h soError).invoke cb l
  | (h, none) => s.moved h soError

end Dialog

/-! ## Events -/

inductive DialogEvent where
  /-- A ready event, with what the callbacks it may lead to do. -/
  | ready (flags : ReadyFlags) (soError : Int) (onBroken onInput onOutput : List UserOp)
  /-- The connection acts from a worker. -/
  | user (l : List UserOp)

def dialogStep (s : Dialog) : DialogEvent → Option Dialog
  | .ready flags soError onBroken onInput onOutput =>
    some (nwcEpollDispatch Dialog.armed (Dialog.handleInput onBroken)
      (Dialog.handleInput onInput) (Dialog.handleOutput soError onOutput) flags s)
  | .user l => some (s.ops l)

theorem dialogStep_total (s : Dialog) (ev : DialogEvent) : ∃ t, dialogStep s ev = some t := by
  cases ev <;> exact ⟨_, rfl⟩

/-- A handler behind a `nwc_tcp_handler_connect` that is in progress. -/
def Dialog.connecting (rc fd add : Int) (eh : Nat) : Dialog where
  handler := (nwcTcpHandlerConnect (nwcTcpHandlerInit true) rc fd add eh).2
  marks := []

/-! ## The protocol -/

/-- What the user of a handler may rely on. -/
structure CallbackProtocol (s : Dialog) : Prop where
  once : s.marks.count (.call .onConnect) ≤ 1
  zero : ∀ e, .left e ∈ s.marks → e = 0
  connect : .call .onConnect ∈ s.marks → .left 0 ∈ s.marks
  established : s.handler.state = .established → .left 0 ∈ s.marks
  first : ∀ pre cb post, s.marks = pre ++ .call cb :: post → cb ≠ .onConnect →
    .call .onConnect ∈ pre
  last : ∀ pre post, s.marks = pre ++ .closed :: post → ∀ cb, .call cb ∉ post

/--
The event is in order for a handler that is connecting: it brings neither data nor trouble, and
when the socket is writable `SO_ERROR` is zero or on the list.
-/
def DialogEvent.Orderly (s : Dialog) : DialogEvent → Prop
  | .ready flags soError _ _ _ =>
    s.handler.state = .connecting → s.armed = true →
      flags.broken = false ∧ flags.input = false ∧
        (flags.output = true → soError = 0 ∨ soError ∈ connectErrors)
  | .user _ => True

/-- The callbacks of an established handler. -/
def Transfers (rest : List Mark) : Prop := ∀ m ∈ rest, m = .call .onRecv ∨ m = .call .onSend

/-- What has been called so far: nothing, or `on_connect` and then transfers. -/
def Proper (marks : List Mark) : Prop :=
  marks = [] ∨ ∃ rest, marks = .left 0 :: .call .onConnect :: rest ∧ Transfers rest

/-- The stages of an orderly dialog. -/
inductive Stage (s : Dialog) : Prop where
  | connecting (hs : s.handler.state = .connecting) (hm : s.marks = [])
  | established (hs : s.handler.state = .established) (rest : List Mark)
      (hm : s.marks = .left 0 :: .call .onConnect :: rest) (hr : Transfers rest)
  | closed (hs : s.handler.state = .closed) (ha : s.armed = false) (front : List Mark)
      (hm : s.marks = front ++ [.closed]) (hf : Proper front)

structure OrderlyDialog (s : Dialog) : Prop where
  ioop : s.handler.ioop = true
  stage : Stage s

/-! ## What the user does -/

/-- What was called before a close was proper at every stage that is still open. -/
theorem Stage.proper {s : Dialog} (h : Stage s) (hs : s.handler.state ≠ .closed) :
    Proper s.marks := by
  cases h with
  | connecting _ hm => exact Or.inl hm
  | established _ rest hm hr => exact Or.inr ⟨rest, hm, hr⟩
  | closed h' => exact absurd h' hs

/-- A send or a close. Neither makes a handler connecting. -/
theorem OrderlyDialog.op {s : Dialog} (h : OrderlyDialog s) (o : UserOp) :
    OrderlyDialog (s.op o) ∧
      (s.handler.state ≠ .connecting → (s.op o).handler.state ≠ .connecting) := by
  cases o with
  | send call =>
    refine ⟨⟨?_, ?_⟩, ?_⟩
    · simp [Dialog.op, h.ioop]
    · cases h.stage with
      | connecting hs hm => exact .connecting (by simp [Dialog.op, hs]) hm
      | established hs rest hm hr => exact .established (by simp [Dialog.op, hs]) rest hm hr
      | closed hs ha front hm hf =>
        have ha' : (s.op (.send call)).armed = false := by
          simpa [Dialog.op, Dialog.armed] using ha
        exact .closed (by simp [Dialog.op, hs]) ha' front hm hf
    · simp [Dialog.op]
  | close =>
    rw [Dialog.op]
    by_cases hs : s.handler.state = .closed
    · rw [if_pos hs]
      exact ⟨h, id⟩
    · rw [if_neg hs]
      have hclosed := nwcTcpHandlerClose_state s.handler
      refine ⟨⟨by simp [h.ioop], ?_⟩, fun _ => ?_⟩
      · exact .closed hclosed (nwcTcpHandlerClose_armed _ hs) s.marks rfl (h.stage.proper hs)
      · rw [hclosed]
        simp

theorem OrderlyDialog.ops (l : List UserOp) {s : Dialog} (h : OrderlyDialog s) :
    OrderlyDialog (s.ops l) ∧
      (s.handler.state ≠ .connecting → (s.ops l).handler.state ≠ .connecting) := by
  induction l generalizing s with
  | nil => exact ⟨h, id⟩
  | cons o l ih =>
    obtain ⟨h', hne⟩ := h.op o
    obtain ⟨h'', hne'⟩ := ih h'
    exact ⟨h'', fun hs => hne' (hne hs)⟩

theorem Dialog.op_marks (s : Dialog) (o : UserOp) : s.marks <+: (s.op o).marks := by
  cases o with
  | send call => exact List.prefix_rfl
  | close =>
    rw [Dialog.op]
    split
    · exact List.prefix_rfl
    · exact List.prefix_append _ _

theorem Dialog.ops_marks (l : List UserOp) (s : Dialog) : s.marks <+: (s.ops l).marks := by
  induction l generalizing s with
  | nil => exact List.prefix_rfl
  | cons o l ih => exact (s.op_marks o).trans (ih (s.op o))

/-- The callback is the next thing that is called, and the marks keep it. -/
theorem Dialog.invoke_marks (s : Dialog) (cb : IoCallback) (l : List UserOp) :
    s.marks ++ [.call cb] <+: (s.invoke cb l).marks :=
  Dialog.ops_marks l (s.called cb)

/-! ## What the looper does -/

/-- An orderly dialog behind the connect. -/
structure Settled (s : Dialog) : Prop where
  orderly : OrderlyDialog s
  ne : s.handler.state ≠ .connecting

theorem OrderlyDialog.settle {s : Dialog} (h : OrderlyDialog s) (hs : s.handler.state ≠ .connecting)
    (l : List UserOp) : Settled (s.ops l) :=
  ⟨(h.ops l).1, (h.ops l).2 hs⟩

/-- An armed handler that is settled is established. -/
theorem Settled.established {s : Dialog} (h : Settled s) (ha : s.armed = true) :
    s.handler.state = .established ∧
      ∃ rest, s.marks = .left 0 :: .call .onConnect :: rest ∧ Transfers rest := by
  cases h.orderly.stage with
  | connecting hs => exact absurd hs h.ne
  | established hs rest hm hr => exact ⟨hs, rest, hm, hr⟩
  | closed _ ha' =>
    rw [ha] at ha'
    cases ha'

theorem Transfers.concat {rest : List Mark} (h : Transfers rest) {cb : IoCallback}
    (hcb : cb = .onRecv ∨ cb = .onSend) : Transfers (rest ++ [.call cb]) := by
  intro m hm
  rcases List.mem_append.mp hm with hm | hm
  · exact h m hm
  · rw [List.mem_singleton.mp hm]
    rcases hcb with rfl | rfl
    · exact Or.inl rfl
    · exact Or.inr rfl

/-- A transfer on an established handler: one more callback. -/
theorem transfer_settled {s : Dialog} {rest : List Mark}
    (hm : s.marks = .left 0 :: .call .onConnect :: rest) (hr : Transfers rest)
    (hi : s.handler.ioop = true) (hs : s.handler.state = .established) {cb : IoCallback}
    (hcb : cb = .onRecv ∨ cb = .onSend) (l : List UserOp) : Settled (s.invoke cb l) := by
  have hcalled : OrderlyDialog (s.called cb) :=
    ⟨hi, .established hs (rest ++ [.call cb]) (by simp [Dialog.called, hm]) (hr.concat hcb)⟩
  exact hcalled.settle (by simp [Dialog.called, hs]) l

theorem Settled.handleInput {s : Dialog} (h : Settled s) (ha : s.armed = true)
    (l : List UserOp) : Settled (s.handleInput l) := by
  obtain ⟨hs, rest, hm, hr⟩ := h.established ha
  have hcb : nwcTcpHandleInput s.handler = some .onRecv := by
    simp [nwcTcpHandleInput, h.orderly.ioop]
  rw [Dialog.handleInput, hcb]
  exact transfer_settled hm hr h.orderly.ioop hs (Or.inl rfl) l

theorem Settled.handleOutput {s : Dialog} (h : Settled s) (ha : s.armed = true)
    (soError : Int) (l : List UserOp) : Settled (s.handleOutput soError l) := by
  obtain ⟨hs, rest, hm, hr⟩ := h.established ha
  let h' : NwcTcpHandler := { s.handler.cancelEvent EM_WRITE with canSend := true }
  have hout : nwcTcpHandleOutput s.handler soError = (h', some .onSend) := by
    simp [nwcTcpHandleOutput, hs, h.orderly.ioop, h']
  rw [Dialog.handleOutput, hout]
  show Settled ((s.moved h' soError).invoke .onSend l)
  have hm' : (s.moved h' soError).marks = .left 0 :: .call .onConnect :: rest := by
    simp [Dialog.moved, hs, hm]
  exact transfer_settled hm' hr h.orderly.ioop hs (Or.inr rfl) l

/-- The socket of a connecting handler is writable, and `SO_ERROR` is zero or on the list. -/
theorem OrderlyDialog.leave {s : Dialog} (h : OrderlyDialog s)
    (hs : s.handler.state = .connecting) (hm : s.marks = []) {soError : Int}
    (herr : soError = 0 ∨ soError ∈ connectErrors) (l : List UserOp) :
    OrderlyDialog (s.handleOutput soError l) := by
  by_cases hzero : soError = 0
  · let h' : NwcTcpHandler := { s.handler.cancelEvent EM_WRITE with state := .established }
    have hout : nwcTcpHandleOutput s.handler soError = (h', some .onConnect) := by
      simp [nwcTcpHandleOutput, hs, hzero, h.ioop, h']
    rw [Dialog.handleOutput, hout]
    have hm' : ((s.moved h' soError).called .onConnect).marks = [.left 0, .call .onConnect] := by
      simp [Dialog.called, Dialog.moved, hs, hm, hzero, h']
    have hstart : OrderlyDialog ((s.moved h' soError).called .onConnect) :=
      ⟨h.ioop, .established rfl [] hm' (by simp [Transfers])⟩
    exact (hstart.ops l).1
  · have hlist : soError ∈ connectErrors := herr.resolve_left hzero
    have hout : nwcTcpHandleOutput s.handler soError = (s.handler.cancelEvent EM_WRITE, none) := by
      simp [nwcTcpHandleOutput, hs, hzero, hlist]
    rw [Dialog.handleOutput, hout]
    exact ⟨h.ioop, .connecting hs (by simp [Dialog.moved, hs, hm])⟩

theorem OrderlyDialog.marks_nil {s : Dialog} (h : OrderlyDialog s)
    (hs : s.handler.state = .connecting) : s.marks = [] := by
  cases h.stage with
  | connecting _ hm => exact hm
  | established hs' => simp [hs] at hs'
  | closed hs' => simp [hs] at hs'

/-- The step lemma: events that are in order keep the dialog in order. -/
theorem OrderlyDialog.step {s t : Dialog} {ev : DialogEvent} (h : OrderlyDialog s)
    (hev : ev.Orderly s) (hstep : dialogStep s ev = some t) : OrderlyDialog t := by
  cases ev with
  | user l =>
    cases hstep
    exact (h.ops l).1
  | ready flags soError onBroken onInput onOutput =>
    cases hstep
    by_cases hs : s.handler.state = .connecting
    · by_cases ha : s.armed = true
      · obtain ⟨hb, hi, ho⟩ := hev hs ha
        have hm := h.marks_nil hs
        cases hout : flags.output with
        | false => simpa [nwcEpollDispatch, ha, hb, hi, hout] using h
        | true => simpa [nwcEpollDispatch, ha, hb, hi, hout] using h.leave hs hm (ho hout) onOutput
      · simpa [nwcEpollDispatch, ha] using h
    · -- the callbacks may close the handler, the rest of the event then finds it disarmed
      have hsettled := nwcEpollDispatch_rel
        (R := fun s t => Settled s → Settled t)
        (fun _ => id) (fun _ _ _ hst htu hs => htu (hst hs)) flags s
        (fun t _ ha ht => ht.handleInput ha onBroken) (fun t _ ha ht => ht.handleInput ha onInput)
        (fun t _ ha ht => ht.handleOutput ha soError onOutput)
      exact (hsettled ⟨h, hs⟩).orderly

/-! ## What the protocol asks for -/

theorem Transfers.connect_not_mem {rest : List Mark} (h : Transfers rest) :
    .call .onConnect ∉ rest := by
  intro hm
  rcases h _ hm with h' | h' <;> simp at h'

theorem Proper.once {marks : List Mark} (h : Proper marks) :
    marks.count (.call .onConnect) ≤ 1 := by
  rcases h with rfl | ⟨rest, rfl, hr⟩
  · simp
  · simp [List.count_eq_zero.mpr hr.connect_not_mem]

theorem Proper.zero {marks : List Mark} (h : Proper marks) {e : Int} (he : .left e ∈ marks) :
    e = 0 := by
  rcases h with rfl | ⟨rest, rfl, hr⟩
  · simp at he
  · rcases List.mem_cons.mp he with he | he
    · cases he
      rfl
    · rcases List.mem_cons.mp he with he | he
      · cases he
      · rcases hr _ he with he | he <;> cases he

theorem Proper.connect {marks : List Mark} (h : Proper marks) (hc : .call .onConnect ∈ marks) :
    .left 0 ∈ marks := by
  rcases h with rfl | ⟨rest, rfl, -⟩
  · simp at hc
  · exact List.mem_cons_self

theorem Proper.closed_not_mem {marks : List Mark} (h : Proper marks) : .closed ∉ marks := by
  rcases h with rfl | ⟨rest, rfl, hr⟩
  · simp
  · intro hm
    have hm' : .closed ∈ rest := by simpa using hm
    rcases hr _ hm' with h' | h' <;> cases h'

/-- A callback other than `on_connect` has `on_connect` before it. -/
theorem Proper.first {pre post : List Mark} {cb : IoCallback} (h : Proper (pre ++ .call cb :: post))
    (hcb : cb ≠ .onConnect) : .call .onConnect ∈ pre := by
  rcases h with h | ⟨rest, h, -⟩
  · simp at h
  · rcases pre with _ | ⟨a, _ | ⟨b, pre⟩⟩
    · simp at h
    · simp [hcb] at h
    · simp only [List.cons_append, List.cons.injEq] at h
      simp [h.2.1]

theorem Proper.protocol {s : Dialog} (h : Proper s.marks)
    (hs : s.handler.state = .established → .left 0 ∈ s.marks) : CallbackProtocol s where
  once := h.once
  zero _ he := h.zero he
  connect := h.connect
  established := hs
  first pre cb post hm hcb := by
    rw [hm] at h
    exact h.first hcb
  last pre post hm := by
    refine absurd ?_ h.closed_not_mem
    simp [hm]

/-- A closed handler: what was called before the close, and nothing after it. -/
theorem Proper.protocol_closed {s : Dialog} {front : List Mark} (h : Proper front)
    (hm : s.marks = front ++ [.closed]) (hs : s.handler.state = .closed) : CallbackProtocol s where
  once := by
    rw [hm, List.count_append]
    simpa using h.once
  zero e he := h.zero (by simpa [hm] using he)
  connect hc := by
    have hc' : .call .onConnect ∈ front := by simpa [hm] using hc
    simp [hm, h.connect hc']
  established hs' := by
    rw [hs] at hs'
    cases hs'
  first pre cb post hm' hcb := by
    rw [hm] at hm'
    rcases split_last hm' with ⟨hcall, -⟩ | ⟨post', hfront⟩
    · cases hcall
    · rw [hfront] at h
      exact h.first hcb
  last pre post hm' cb hcb := by
    rw [hm] at hm'
    rcases split_last hm' with ⟨-, hpost⟩ | ⟨post', hfront⟩
    · simp [hpost] at hcb
    · exact h.closed_not_mem (by simp [hfront])

theorem OrderlyDialog.protocol {s : Dialog} (h : OrderlyDialog s) : CallbackProtocol s := by
  cases h.stage with
  | connecting hs hm => exact Proper.protocol (Or.inl hm) (by simp [hs])
  | established hs rest hm hr => exact Proper.protocol (Or.inr ⟨rest, hm, hr⟩) (by simp [hm])
  | closed hs _ front hm hf => exact hf.protocol_closed hm hs

/-! ## Events that are not in order -/

theorem Dialog.handleInput_marks (l : List UserOp) (s : Dialog) :
    s.marks <+: (s.handleInput l).marks := by
  unfold Dialog.handleInput
  split
  · exact (List.prefix_append _ _).trans (s.invoke_marks _ l)
  · exact List.prefix_rfl

theorem Dialog.moved_marks (s : Dialog) (h : NwcTcpHandler) (soError : Int) :
    s.marks <+: (s.moved h soError).marks := by
  unfold Dialog.moved
  dsimp only
  split
  · exact List.prefix_append _ _
  · exact List.prefix_rfl

theorem Dialog.handleOutput_marks (soError : Int) (l : List UserOp) (s : Dialog) :
    s.marks <+: (s.handleOutput soError l).marks := by
  unfold Dialog.handleOutput
  split
  · exact (s.moved_marks _ soError).trans
      ((List.prefix_append _ _).trans (Dialog.invoke_marks _ _ l))
  · exact s.moved_marks _ soError

/-- No event takes back what was called. -/
theorem Dialog.dispatch_marks (flags : ReadyFlags) (soError : Int)
    (onBroken onInput onOutput : List UserOp) (s : Dialog) :
    s.marks <+: (nwcEpollDispatch Dialog.armed (Dialog.handleInput onBroken)
      (Dialog.handleInput onInput) (Dialog.handleOutput soError onOutput) flags s).marks :=
  nwcEpollDispatch_rel (R := fun s t => s.marks <+: t.marks) (fun _ => List.prefix_rfl)
    (fun _ _ _ => List.IsPrefix.trans) flags s (fun t _ _ => t.handleInput_marks onBroken)
    (fun t _ _ => t.handleInput_marks onInput) (fun t _ _ => t.handleOutput_marks soError onOutput)

/-- `on_recv` is the first thing that is called. -/
theorem not_protocol_of_recv {s : Dialog} (h : [.call .onRecv] <+: s.marks) :
    ¬CallbackProtocol s := by
  obtain ⟨post, hpost⟩ := h
  intro hp
  have := hp.first [] .onRecv post hpost.symm (by simp)
  simp at this

/-- Data or trouble is the first thing that is called about. -/
theorem Dialog.handleInput_first {s : Dialog} (hi : s.handler.ioop = true) (hm : s.marks = [])
    (l : List UserOp) : [.call .onRecv] <+: (s.handleInput l).marks := by
  have hin : nwcTcpHandleInput s.handler = some .onRecv := by simp [nwcTcpHandleInput, hi]
  rw [Dialog.handleInput, hin]
  simpa [hm] using s.invoke_marks .onRecv l

/-- An error that is not on the list counts as a connection. -/
theorem Dialog.handleOutput_left {s : Dialog} (hi : s.handler.ioop = true)
    (hs : s.handler.state = .connecting) {soError : Int} (hlist : soError ∉ connectErrors)
    (l : List UserOp) : .left soError ∈ (s.handleOutput soError l).marks := by
  let h' : NwcTcpHandler := { s.handler.cancelEvent EM_WRITE with state := .established }
  have hout : nwcTcpHandleOutput s.handler soError = (h', some .onConnect) := by
    simp [nwcTcpHandleOutput, hs, hlist, hi, h']
  have hmoved : .left soError ∈ (s.moved h' soError).marks := by simp [Dialog.moved, hs, h']
  rw [Dialog.handleOutput, hout]
  exact (Dialog.invoke_marks _ .onConnect l).subset (List.mem_append_left _ hmoved)

/-- An event that is not in order breaks the protocol. -/
theorem OrderlyDialog.broken {s t : Dialog} {ev : DialogEvent} (h : OrderlyDialog s)
    (hev : ¬ev.Orderly s) (hstep : dialogStep s ev = some t) : ¬CallbackProtocol t := by
  cases ev with
  | user l => exact absurd trivial hev
  | ready flags soError onBroken onInput onOutput =>
    cases hstep
    simp only [DialogEvent.Orderly, Classical.not_imp] at hev
    obtain ⟨hs, ha, hev⟩ := hev
    have hm := h.marks_nil hs
    by_cases hb : flags.broken = true
    · rw [nwcEpollDispatch_broken ha hb]
      have hfirst := Dialog.handleInput_first h.ioop hm onBroken
      exact not_protocol_of_recv (hfirst.trans (Dialog.dispatch_marks ..))
    · have hb' : flags.broken = false := by simpa using hb
      by_cases hi : flags.input = true
      · rw [nwcEpollDispatch_input ha hb' hi]
        have hfirst := Dialog.handleInput_first h.ioop hm onInput
        exact not_protocol_of_recv (hfirst.trans (Dialog.dispatch_marks ..))
      · -- the socket is writable, and `SO_ERROR` is an error that is not on the list
        have hi' : flags.input = false := by simpa using hi
        simp only [hb', hi', true_and, Classical.not_imp, not_or] at hev
        obtain ⟨ho, hzero, hlist⟩ := hev
        have honly : nwcEpollDispatch Dialog.armed (Dialog.handleInput onBroken)
            (Dialog.handleInput onInput) (Dialog.handleOutput soError onOutput) flags s
              = s.handleOutput soError onOutput := by
          simp [nwcEpollDispatch, ha, hb', hi', ho]
        rw [honly]
        intro hp
        exact hzero (hp.zero soError (Dialog.handleOutput_left h.ioop hs hlist onOutput))

/-! ## The life of a connecting handler -/

/-- The connect is in progress: nothing has been called. -/
theorem connecting_orderly {rc : Int} (hrc : rc = EINPROGRESS ∨ rc = EWOULDBLOCK) (fd add : Int)
    (eh : Nat) : OrderlyDialog (Dialog.connecting rc fd add eh) := by
  have hne : rc ≠ 0 := by
    rcases hrc with rfl | rfl <;> decide
  refine ⟨?_, .connecting ?_ rfl⟩
  · simp [Dialog.connecting, nwcTcpHandlerConnect, hne, hrc, nwcTcpHandlerInit]
  · simp [Dialog.connecting, nwcTcpHandlerConnect, hne, hrc]

/--
**When the callbacks keep to the protocol.**

From a connect in progress on, and whatever the callbacks and the workers do, the protocol holds
all along a run exactly when every event the handler gets while it is connecting is in order.
-/
theorem callbackProtocol_iff (rc fd add : Int) (eh : Nat) (events : List DialogEvent)
    (hrc : rc = EINPROGRESS ∨ rc = EWOULDBLOCK) :
    (∀ t, Visits dialogStep (Dialog.connecting rc fd add eh) events t → CallbackProtocol t) ↔
      Along dialogStep (Dialog.connecting rc fd add eh) events (fun s ev => ev.Orderly s) := by
  obtain ⟨t, ht⟩ : ∃ t, replay dialogStep (Dialog.connecting rc fd add eh) events = some t :=
    replay_total dialogStep_total events _
  exact exact_rule (fun _ => OrderlyDialog.protocol) (fun _ _ _ hs hev => hs.step hev)
    (fun _ _ _ hs hev => hs.broken hev) (connecting_orderly hrc fd add eh) ht

/-- The connection comes up, is used and is closed by its user. -/
def connected : List DialogEvent :=
  [.ready ⟨false, false, false, false, true⟩ 0 [] [] [.send (.done 20)], .user [.close]]

theorem connected_callbackProtocol : ∃ t,
    replay dialogStep (Dialog.connecting EINPROGRESS 5 0 0) connected = some t ∧
      t.marks = [.left 0, .call .onConnect, .closed] ∧ CallbackProtocol t := by
  have hgood : Along dialogStep (Dialog.connecting EINPROGRESS 5 0 0) connected
      (fun s ev => ev.Orderly s) := by
    rw [connected, along_cons rfl, along_cons rfl]
    refine ⟨fun _ _ => ⟨rfl, rfl, fun _ => Or.inl rfl⟩, trivial, along_nil _ _⟩
  refine ⟨_, rfl, by decide, ?_⟩
  exact (callbackProtocol_iff EINPROGRESS 5 0 0 connected (Or.inl rfl)).mpr hgood _
    ⟨connected, List.prefix_rfl, rfl⟩

/-- A refused connect: the socket is readable, writable and broken all at once. -/
theorem refused_not_callbackProtocol :
    ¬∀ t, Visits dialogStep (Dialog.connecting EINPROGRESS 5 0 0)
      [.ready ⟨true, true, true, true, true⟩ ECONNREFUSED [.close] [] []] t →
        CallbackProtocol t := by
  intro h
  refine not_protocol_of_recv ?_ (h _ ⟨_, List.prefix_rfl, rfl⟩)
  exact ⟨[.closed], by decide⟩

end Nwchecker
