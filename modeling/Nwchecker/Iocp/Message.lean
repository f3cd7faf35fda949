import Nwchecker.Iocp.Balance

/-!
# The buffer of a connection

What `nwcs_run_loop` does to the buffers. The system stores what it receives where the `WSABUF` of
the read says, and `nwcs_iocp_process_message` puts a zero behind it, at the index that the
completion port has reported. A `WSABUF` says that the whole array is room (`Inv`), so the index of
the zero may be the length of the array.

A store outside the array ends a run: what it comes to is not defined in C.
-/

namespace Nwchecker.Iocp

open Machine Tickets

def RECV_BUFFER_LEN : Nat := 4096

/-- `BYTE recv_buff[RECV_BUFFER_LEN]` -/
abbrev RecvBuff : Type := Fin RECV_BUFFER_LEN → UInt8

/-- `WSABUF`. `buf` is the `recv_buff` of a connection. -/
structure WsaBuf where
  buf : NwcId
  len : Nat
  deriving DecidableEq, Repr

/-- The whole buffer of a connection. -/
def WsaBuf.whole (k : NwcId) : WsaBuf where
  buf := k
  len := RECV_BUFFER_LEN

/-- The server with the buffers. Memory that has not been allocated yet has some contents, too. -/
structure Buffered where
  iocp : NwcsIocp
  recvBuff : NwcId → RecvBuff
  wsabuf : NwcId → WsaBuf

/-- What `GetQueuedCompletionStatus` returns, with the bytes that the system has stored by then. -/
inductive Packet where
  | completion (t : Ticket NwcId Oper) (ok : Bool) (rbytes : Nat) (data : List UInt8)
      (answers : LoopAnswers)
  | nothing

/-- The packet as the loop without buffers sees it. -/
def Packet.event : Packet → NwcsIocp.Event
  | .completion t ok rbytes _ a => .completion t ok rbytes a
  | .nothing => .nothing

namespace Buffered

/-- `recv_buff[i] = b`. `none` is a store outside the array. -/
def store (buff : RecvBuff) (i : Nat) (b : UInt8) : Option RecvBuff :=
  if h : i < RECV_BUFFER_LEN then some (Function.update buff ⟨i, h⟩ b) else none

/-- The bytes at the start of an array. -/
def fill (buff : RecvBuff) (data : List UInt8) : RecvBuff := fun i => data.getD i (buff i)

/-- The buffer in which the system puts what an operation brings: that of the `WSABUF` of a
`WSARecv`, and that of `accept_conn` for the addresses of `AcceptEx`. -/
def target (s : Buffered) (t : Ticket NwcId Oper) : NwcId :=
  match t.op with
  | .read => (s.wsabuf t.owner).buf
  | .accept => .acceptConn
  | .write => t.owner

/-- What the system may store and report. -/
def Allowed (s : Buffered) (t : Ticket NwcId Oper) (rbytes : Nat) (data : List UInt8) : Prop :=
  match t.op with
  | .read => data.length = rbytes ∧ rbytes ≤ (s.wsabuf t.owner).len
  -- no data is asked for, and there is room for two addresses of 32 bytes
  | .accept => data.length ≤ 64 ∧ rbytes = 0
  | .write => data = []

instance (s : Buffered) (t : Ticket NwcId Oper) (rbytes : Nat) (data : List UInt8) :
    Decidable (s.Allowed t rbytes data) := by
  unfold Allowed
  cases t.op <;> infer_instance

def deliver (s : Buffered) (t : Ticket NwcId Oper) (data : List UInt8) : Buffered :=
  { s with
    recvBuff := Function.update s.recvBuff (s.target t) (fill (s.recvBuff (s.target t)) data) }

/-- `alloc_nwc_conn_arg0` for the next connection: its `WSABUF`. -/
def allocWsaBuf (s : Buffered) : Buffered :=
  let k := NwcId.client s.iocp.clients
  { s with wsabuf := Function.update s.wsabuf k (.whole k) }

/-- `nwc->recv_buff[nwc->rbytes] = '\0'` -/
def terminate (s : Buffered) (k : NwcId) : Option Buffered :=
  (store (s.recvBuff k) (s.iocp.conn k).rbytes 0).map fun buff =>
    { s with recvBuff := Function.update s.recvBuff k buff }

/-- `nwcs_iocp_process_message` -/
def nwcsIocpProcessMessage (s : Buffered) (k : NwcId) (op : Oper) (a : LoopAnswers) :
    Option Buffered :=
  match op with
  | .accept =>
    some { s.allocWsaBuf with iocp := s.iocp.nwcsIocpProcessMessage k .accept a }
  | .read =>
    (s.terminate k).map fun s => { s with iocp := s.iocp.nwcsIocpProcessMessage k .read a }
  | .write => some { s with iocp := s.iocp.nwcsIocpProcessMessage k .write a }

/-- The packet is taken from the port, and `nwc->rbytes` set. -/
def dequeue (s : Buffered) (t : Ticket NwcId Oper) (rbytes : Nat) : Buffered :=
  { s with
    iocp := { s.iocp with desk := s.iocp.desk.settle t }.modify t.owner fun c =>
      { c with rbytes := rbytes } }

/-- The loop behind `nwcs_iocp_process_message`. -/
def finish (s : Buffered) (t : Ticket NwcId Oper) : Buffered :=
  { s with iocp := ((s.iocp.freeNwcIoOp t.id).countDown t.owner).sweep }

/-- The packet of an operation that succeeded. -/
def completed (s : Buffered) (t : Ticket NwcId Oper) (rbytes : Nat) (a : LoopAnswers) :
    Option Buffered :=
  ((s.dequeue t rbytes).nwcsIocpProcessMessage t.owner t.op a).map fun s => s.finish t

/-- One iteration. `none` is a store outside an array. -/
def handle (s : Buffered) : Packet → Option Buffered
  | .completion t true rbytes data a => (s.deliver t data).completed t rbytes a
  | .completion t false _ data _ =>
    some { s.deliver t data with iocp := (s.deliver t data).iocp.failed t }
  | .nothing => some s

/-- The packet may come: the loop goes on with it, and the system keeps to the buffers. -/
def Ready (s : Buffered) : Packet → Prop
  | .completion t _ rbytes data _ =>
    (t ∈ s.iocp.desk.waiting ∧ s.iocp.alive t = true) ∧ s.Allowed t rbytes data
  | .nothing => True

instance (s : Buffered) : ∀ p, Decidable (s.Ready p)
  | .completion _ _ _ _ _ => inferInstanceAs (Decidable (_ ∧ _))
  | .nothing => inferInstanceAs (Decidable True)

def step (s : Buffered) (p : Packet) : Option Buffered := if s.Ready p then s.handle p else none

/-- `nwcs_iocp_open`, where it returns 0. -/
def nwcsIocpOpen (a : LoopAnswers) (recvBuff : NwcId → RecvBuff) (wsabuf : NwcId → WsaBuf) :
    Buffered where
  iocp := NwcsIocp.nwcsIocpOpen a
  recvBuff := recvBuff
  wsabuf := wsabuf

/-- **A message touches its buffer only.** The server is what the loop without buffers makes of it,
which is to say all its fields and lists, and the `WSABUF`s and the buffers of all other connections
are what they were. -/
structure Framed (s : Buffered) (p : Packet) (k : NwcId) (s' : Buffered) : Prop where
  loop : NwcsIocp.step s.iocp p.event = some s'.iocp
  wsabuf : s'.wsabuf = s.wsabuf
  others : ∀ j, j ≠ k → s'.recvBuff j = s.recvBuff j

/-- The stores for a message stay in its buffer. -/
def Confined (s : Buffered) (p : Packet) : Prop :=
  ∀ t rbytes data a, p = .completion t true rbytes data a → t.op = .read → s.Ready p →
    ∃ s', s.handle p = some s' ∧ s.Framed p t.owner s'

/-- A message does not fill its buffer. -/
def NotFull (s : Buffered) (p : Packet) : Prop :=
  ∀ t rbytes data a, p = .completion t true rbytes data a → t.op = .read → s.Ready p →
    rbytes < RECV_BUFFER_LEN

/-! ## Reads that wait -/

/-- The reads that wait in `v` have waited in `u`, or are on `k`. -/
def ReadsOn (k : NwcId) (u v : NwcsIocp) : Prop :=
  ∀ t ∈ v.desk.waiting, t.op = .read → t ∈ u.desk.waiting ∨ t.owner = k

variable {k : NwcId} {u v w : NwcsIocp} {a : LoopAnswers}

theorem ReadsOn.of_waiting (h : v.desk.waiting = u.desk.waiting) : ReadsOn k u v := by
  intro t ht _
  rw [h] at ht
  exact Or.inl ht

theorem ReadsOn.trans (h₁ : ReadsOn k u v) (h₂ : ReadsOn k v w) : ReadsOn k u w := by
  intro t ht hop
  rcases h₂ t ht hop with ht | howner
  · exact h₁ t ht hop
  · exact Or.inr howner

theorem readsOn_post (k : NwcId) (u : NwcsIocp) (op : Oper) : ReadsOn k u (u.post k op) := by
  intro t ht _
  rcases Desk.mem_post.mp ht with ht | rfl
  · exact Or.inl ht
  · exact Or.inr rfl

theorem readsOn_readRequest (k : NwcId) (u : NwcsIocp) (recv : RecvAnswer) :
    ReadsOn k u (u.nwcsReadRequest k recv).2 := by
  have hpost := readsOn_post k u .read
  unfold NwcsIocp.nwcsReadRequest
  split
  · exact ReadsOn.of_waiting rfl
  · exact hpost.trans (ReadsOn.of_waiting rfl)
  · exact hpost.trans (ReadsOn.of_waiting (by simp [NwcsIocp.countUp]))
  · exact hpost.trans (ReadsOn.of_waiting (by simp [NwcsIocp.countUp]))

theorem readsOn_writeRequest (k : NwcId) (u : NwcsIocp) (send : Bool) :
    ReadsOn k u (u.nwcsWriteRequest k send).2 := by
  unfold NwcsIocp.nwcsWriteRequest
  split
  · exact (readsOn_post k u .write).trans (ReadsOn.of_waiting (by simp [NwcsIocp.countUp]))
  · exact ReadsOn.of_waiting rfl

/-- An accept that is posted is no read. -/
theorem readsOn_acceptRequest (k : NwcId) (u : NwcsIocp) (a : LoopAnswers) :
    ReadsOn k u (u.nwcsAcceptRequest a) := by
  unfold NwcsIocp.nwcsAcceptRequest
  split
  · split
    · intro t ht hop
      rcases Desk.mem_post.mp ht with ht | rfl
      · exact Or.inl ht
      · cases hop
    · exact ReadsOn.of_waiting rfl
  · exact ReadsOn.of_waiting rfl

theorem acceptRequest_clients (u : NwcsIocp) (a : LoopAnswers) :
    (u.nwcsAcceptRequest a).clients = u.clients := by
  unfold NwcsIocp.nwcsAcceptRequest
  split
  · split
    · rfl
    · rfl
  · rfl

theorem readsOn_connect (u : NwcsIocp) (a : LoopAnswers) :
    ReadsOn (.client u.clients) u (u.connect a) := by
  have hread := readsOn_readRequest (.client u.clients) (u.newClient a.mem) a.recv
  have hnew : ReadsOn (.client u.clients) u (u.newClient a.mem) := ReadsOn.of_waiting rfl
  unfold NwcsIocp.connect
  dsimp only
  split
  · split
    · next t heq =>
      rw [heq] at hread
      exact (hnew.trans hread).trans (ReadsOn.of_waiting rfl)
    · next t heq =>
      rw [heq] at hread
      exact (hnew.trans hread).trans (ReadsOn.of_waiting (by simp [NwcsIocp.freeNwcConn]))
  · exact hnew.trans (ReadsOn.of_waiting (by simp [NwcsIocp.freeNwcConn]))

theorem readsOn_reply (k : NwcId) (u : NwcsIocp) (a : LoopAnswers) :
    ReadsOn k u (u.reply k a) := by
  have hwrite := readsOn_writeRequest k u a.send
  unfold NwcsIocp.reply
  split
  · next t heq =>
    rw [heq] at hwrite
    have hread := readsOn_readRequest k t a.recv
    split
    · next v heq' =>
      rw [heq'] at hread
      exact hwrite.trans hread
    · next v heq' =>
      rw [heq'] at hread
      exact (hwrite.trans hread).trans (ReadsOn.of_waiting rfl)
  · next t heq =>
    rw [heq] at hwrite
    exact hwrite.trans (ReadsOn.of_waiting rfl)

/-! ## The buffers of the reads -/

variable {s s' : Buffered} {p : Packet} {t : Ticket NwcId Oper} {rbytes : Nat} {data : List UInt8}

/-- Every read that waits has been given the whole buffer of its connection. -/
def Inv (s : Buffered) : Prop :=
  ∀ t ∈ s.iocp.desk.waiting, t.op = .read → s.wsabuf t.owner = .whole t.owner

theorem Inv.of_readsOn (hs : s.Inv) (hreads : ReadsOn k s.iocp s'.iocp)
    (hsame : ∀ j, s'.wsabuf j = s.wsabuf j ∨ s'.wsabuf j = .whole j)
    (hk : s'.wsabuf k = .whole k) : s'.Inv := by
  intro t ht hop
  rcases hreads t ht hop with ht | rfl
  · rcases hsame t.owner with heq | heq
    · rw [heq]
      exact hs t ht hop
    · exact heq
  · exact hk

theorem Inv.deliver (hs : s.Inv) (t : Ticket NwcId Oper) (data : List UInt8) :
    (s.deliver t data).Inv := hs

theorem Inv.dequeue (hs : s.Inv) (t : Ticket NwcId Oper) (rbytes : Nat) :
    (s.dequeue t rbytes).Inv := by
  intro u hu
  simp only [Buffered.dequeue, NwcsIocp.modify_desk] at hu
  exact hs u (Desk.mem_settle hu)

theorem Inv.finish (hs : s.Inv) (t : Ticket NwcId Oper) : (s.finish t).Inv := by
  intro u hu
  simp only [Buffered.finish, (NwcsIocp.sweep_frees _).desk] at hu
  exact hs u (by simpa [NwcsIocp.countDown, NwcsIocp.freeNwcIoOp] using hu)

/-- What `nwcs_iocp_process_message` comes to, when its store stays in the array. -/
structure Processed (s : Buffered) (k : NwcId) (op : Oper) (a : LoopAnswers) (s' : Buffered) :
    Prop where
  iocp : s'.iocp = s.iocp.nwcsIocpProcessMessage k op a
  wsabuf : s'.wsabuf = if op = .accept then s.allocWsaBuf.wsabuf else s.wsabuf
  others : ∀ j, j ≠ k → s'.recvBuff j = s.recvBuff j

theorem processed {op : Oper} (h : s.nwcsIocpProcessMessage k op a = some s') :
    s.Processed k op a s' := by
  cases op with
  | accept =>
    cases h
    exact ⟨rfl, rfl, fun _ _ => rfl⟩
  | read =>
    simp only [nwcsIocpProcessMessage, terminate, Option.map_eq_some_iff] at h
    obtain ⟨-, ⟨buff, -, rfl⟩, rfl⟩ := h
    exact ⟨rfl, rfl, fun j hj => Function.update_of_ne hj ..⟩
  | write =>
    cases h
    exact ⟨rfl, rfl, fun _ _ => rfl⟩

theorem Inv.processed {op : Oper} (hs : s.Inv) (hk : op = .read → s.wsabuf k = .whole k)
    (h : s.Processed k op a s') : s'.Inv := by
  have hiocp := h.iocp
  have hwsabuf := h.wsabuf
  cases op with
  | accept =>
    refine hs.of_readsOn (k := .client s.iocp.clients) ?_ (fun j => ?_) ?_
    · rw [hiocp]
      have hconnect := readsOn_connect (s.iocp.nwcsAcceptRequest a) a
      rw [acceptRequest_clients] at hconnect
      exact (readsOn_acceptRequest _ s.iocp a).trans hconnect
    · rw [hwsabuf, if_pos rfl]
      by_cases hj : j = .client s.iocp.clients
      · rw [hj]
        exact Or.inr (Function.update_self ..)
      · exact Or.inl (Function.update_of_ne hj ..)
    · rw [hwsabuf, if_pos rfl]
      exact Function.update_self ..
  | read =>
    rw [if_neg (by decide)] at hwsabuf
    refine hs.of_readsOn (k := k) ?_ (fun j => Or.inl (by rw [hwsabuf])) ?_
    · rw [hiocp]
      exact readsOn_reply k s.iocp a
    · rw [hwsabuf]
      exact hk rfl
  | write =>
    rw [if_neg (by decide)] at hwsabuf
    intro u hu hop
    rw [hiocp] at hu
    rw [hwsabuf]
    exact hs u hu hop

/-! ## One iteration -/

theorem completed_cases (h : s.completed t rbytes a = some s') :
    ∃ v, (s.dequeue t rbytes).Processed t.owner t.op a v ∧ s' = v.finish t := by
  obtain ⟨v, hv, rfl⟩ := Option.map_eq_some_iff.mp h
  exact ⟨v, processed hv, rfl⟩

theorem Inv.handle (hs : s.Inv) (hready : s.Ready p) (h : s.handle p = some s') : s'.Inv := by
  cases p with
  | completion t ok rbytes data a =>
    obtain ⟨⟨ht, -⟩, -⟩ := hready
    cases ok with
    | true =>
      obtain ⟨v, hv, rfl⟩ := completed_cases h
      refine Inv.finish (Inv.processed ((hs.deliver t data).dequeue t rbytes) ?_ hv) t
      exact fun hop => hs t ht hop
    | false =>
      cases h
      intro u hu hop
      exact hs u (Desk.mem_settle hu) hop
  | nothing =>
    cases h
    exact hs

theorem Inv.step (hs : s.Inv) (h : s.step p = some s') : s'.Inv := by
  simp only [Buffered.step] at h
  split at h
  · next hready => exact hs.handle hready h
  · cases h

theorem nwcsIocpOpen_inv (a : LoopAnswers) (recvBuff : NwcId → RecvBuff)
    (wsabuf : NwcId → WsaBuf) : (nwcsIocpOpen a recvBuff wsabuf).Inv := by
  intro t ht hop
  -- the accept is on no connection whatever a read could be on
  rcases readsOn_acceptRequest .acceptConn NwcsIocp.listening a t ht hop with ht | haccept
  · cases ht
  · rcases readsOn_acceptRequest (.client 0) NwcsIocp.listening a t ht hop with ht | hclient
    · cases ht
    · rw [haccept] at hclient
      cases hclient

/-- The zero behind a message goes to the index that the port has reported. -/
theorem dequeue_rbytes (s : Buffered) (t : Ticket NwcId Oper) (rbytes : Nat) :
    ((s.dequeue t rbytes).iocp.conn t.owner).rbytes = rbytes := by
  rw [dequeue]
  cases t.owner with
  | acceptConn => rfl
  | client i => simp [NwcsIocp.conn, NwcsIocp.modify]

theorem handle_message_iff (hop : t.op = .read) :
    (∃ s', s.handle (.completion t true rbytes data a) = some s') ↔ rbytes < RECV_BUFFER_LEN := by
  have hindex := dequeue_rbytes (s.deliver t data) t rbytes
  rw [handle, completed, hop]
  simp only [nwcsIocpProcessMessage, terminate, hindex, store]
  by_cases hlt : rbytes < RECV_BUFFER_LEN
  · simp [hlt]
  · simp [hlt]

theorem handle_framed (hs : s.Inv) (hop : t.op = .read)
    (hready : s.Ready (.completion t true rbytes data a))
    (h : s.handle (.completion t true rbytes data a) = some s') :
    s.Framed (.completion t true rbytes data a) t.owner s' := by
  obtain ⟨hgoes, -⟩ := hready
  obtain ⟨v, hv, rfl⟩ := completed_cases h
  have htarget : s.target t = t.owner := by
    simp only [target, hop, hs t hgoes.1 hop, WsaBuf.whole]
  refine ⟨?_, ?_, ?_⟩
  · show NwcsIocp.step s.iocp (.completion t true rbytes a) = _
    rw [NwcsIocp.step, if_pos hgoes, if_pos rfl, NwcsIocp.completed, finish, hv.iocp]
    rfl
  · have hwsabuf := hv.wsabuf
    rw [hop, if_neg (by decide)] at hwsabuf
    exact hwsabuf
  · intro j hj
    refine (hv.others j hj).trans ?_
    show (Function.update s.recvBuff (s.target t) _) j = _
    rw [htarget, Function.update_of_ne hj]

theorem confined_iff_notFull (hs : s.Inv) (p : Packet) : s.Confined p ↔ s.NotFull p := by
  constructor
  · intro hconfined t rbytes data a hp hop hready
    obtain ⟨s', hs', -⟩ := hconfined t rbytes data a hp hop hready
    rw [hp] at hs'
    exact (handle_message_iff hop).mp ⟨s', hs'⟩
  · intro hnot t rbytes data a hp hop hready
    obtain ⟨s', hs'⟩ : ∃ s', s.handle (.completion t true rbytes data a) = some s' :=
      (handle_message_iff hop).mpr (hnot t rbytes data a hp hop hready)
    rw [hp] at hready ⊢
    exact ⟨s', hs', handle_framed hs hop hready hs'⟩

/--
**When messages touch their buffers only.**

All along a run the stores for a message stay in the buffer of its connection, and everything else
is what the loop makes of it, if and only if no message fills its buffer.
-/
theorem confined_iff (a : LoopAnswers) (recvBuff : NwcId → RecvBuff) (wsabuf : NwcId → WsaBuf)
    (packets : List Packet) :
    Along step (nwcsIocpOpen a recvBuff wsabuf) packets Confined ↔
      Along step (nwcsIocpOpen a recvBuff wsabuf) packets NotFull := by
  have hinv : ∀ ds t, replay step (nwcsIocpOpen a recvBuff wsabuf) ds = some t → t.Inv := by
    intro ds t ht
    exact replay_invariant (I := fun _ => True) (fun u p u' _ hu hstep => hu.step hstep)
      (fun _ _ => trivial) (nwcsIocpOpen_inv a recvBuff wsabuf) ht
  constructor
  · intro hall ds p t hds ht
    exact (confined_iff_notFull (hinv ds t ht) p).mp (hall ds p t hds ht)
  · intro hall ds p t hds ht
    exact (confined_iff_notFull (hinv ds t ht) p).mpr (hall ds p t hds ht)

/-- The server with clear memory. -/
def clear : Buffered := nwcsIocpOpen NwcsIocp.allWell (fun _ _ => 0) .whole

def clientConnects : Packet := .completion NwcsIocp.firstAccept true 0 [] NwcsIocp.allWell

/-- A client sends as many bytes as there is room for. -/
def fillsBuffer : Packet :=
  .completion NwcsIocp.firstRead true RECV_BUFFER_LEN (List.replicate RECV_BUFFER_LEN 65)
    NwcsIocp.allWell

/-- The zero goes behind the array. -/
theorem fillsBuffer_not_confined : ¬Along step clear [clientConnects, fillsBuffer] Confined := by
  intro hall
  obtain ⟨t, ht, hgoes, hlen⟩ : ∃ t ∈ replay step clear [clientConnects],
      (NwcsIocp.firstRead ∈ t.iocp.desk.waiting ∧ t.iocp.alive NwcsIocp.firstRead = true) ∧
        (t.wsabuf NwcsIocp.firstRead.owner).len = RECV_BUFFER_LEN := by
    decide +kernel
  have hready : t.Ready fillsBuffer := by
    refine ⟨hgoes, ?_, Nat.le_of_eq hlen.symm⟩
    exact List.length_replicate
  obtain ⟨s', hs', -⟩ := hall [clientConnects] fillsBuffer t (List.prefix_refl _) ht _ _ _ _ rfl
    rfl hready
  exact absurd ((handle_message_iff rfl).mp ⟨s', hs'⟩) (Nat.lt_irrefl _)

end Buffered

end Nwchecker.Iocp
