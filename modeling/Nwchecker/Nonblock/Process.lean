import Nwchecker.Nonblock.Requests

/-!
# The loop over the keys

`process` with all its clients. The loop visits the keys of a batch one after the other. An
exception that is no `IOException` leaves `process`, and with it the server.

The only one that a client can bring about is that of `new byte[bodyLen]`, when the length is
negative (`keepsServing_iff`).
-/

namespace Nwchecker.Nonblock

open Buffers Framing Java Machine Words

/-- A key that has been selected. The key of a client is known by the number of the client. -/
inductive SelectedKey where
  | acceptable
  | client (i : Nat) (readable writable : Bool)
  deriving DecidableEq, Repr

/-- Whose key it is. -/
def SelectedKey.owner : SelectedKey → Option Nat
  | .acceptable => none
  | .client i _ _ => some i

/-- A call of `recvData` that has returned, and whether the channel was open then. -/
structure Call where
  rc : Int
  opened : Bool
  deriving DecidableEq, Repr

/-- `NonblockTCPServer`. -/
structure Server where
  /-- In the order in which they were accepted. -/
  clients : List Client
  /-- The keys that the iterator has not come to. -/
  selected : List SelectedKey
  calls : List Call
  deriving DecidableEq, Repr

namespace Server

/-- Behind `start`. -/
def start : Server where
  clients := []
  selected := []
  calls := []

variable {L : Nat}

inductive Event (L : Nat) where
  /-- `select` returns, and the loop begins. -/
  | select (keys : List SelectedKey)
  /-- A turn of the loop. -/
  | visit (r : ReadResult) (resp : Client.Response L) (w : WriteResult)

/-- The key is that of an open channel, and reports what the channel is registered for. -/
def Selectable (s : Server) : SelectedKey → Prop
  | .acceptable => True
  | .client i readable writable => ∃ c ∈ s.clients[i]?, c.sk.valid = true ∧
      (readable = true → c.sk.ops.read = true) ∧ (writable = true → c.sk.ops.write = true)

instance (s : Server) : ∀ key, Decidable (s.Selectable key)
  | .acceptable => inferInstanceAs (Decidable True)
  | .client i _ _ => inferInstanceAs (Decidable (∃ c ∈ s.clients[i]?, _ ∧ (_ → _) ∧ (_ → _)))

/-- The branches of the loop for the key of a client. The first test is that of `isAcceptable`. -/
def serve (s : Server) (c : Client) (i : Nat) (readable writable : Bool) (r : ReadResult)
    (resp : List UInt8) (w : WriteResult) : Except RuntimeException Server :=
  match c.sk.interestOps with
  | .error e => .error e
  | .ok _ =>
    if readable then
      match c.onReadable r resp w with
      | .error e => .error e
      | .ok (rc, d) =>
        .ok { s with
          clients := s.clients.set i d
          calls := s.calls ++ [{ rc := rc, opened := d.sk.valid }] }
    else if writable then
      match c.onWritable resp w with
      | .error e => .error e
      | .ok d => .ok { s with clients := s.clients.set i d }
    else .ok s

def step : Except RuntimeException Server → Event L → Option (Except RuntimeException Server)
  | .error _, _ => none
  | .ok s, .select keys =>
    if s.selected = [] ∧ (keys.map SelectedKey.owner).Nodup ∧ ∀ key ∈ keys, s.Selectable key then
      some (.ok { s with selected := keys })
    else none
  | .ok s, .visit r resp w =>
    match s.selected with
    | [] => none
    | .acceptable :: keys =>
      some (.ok { s with clients := s.clients ++ [Client.create], selected := keys })
    | .client i readable writable :: keys =>
      match s.clients[i]? with
      | none => none
      | some c =>
        if c.Takes r then
          some ({ s with selected := keys }.serve c i readable writable r resp.text w)
        else none

/-! ## What keeps the server going -/

variable {s t : Server} {c d : Client}

/-- Every call of `recvData` has returned 0, or -1 with the channel closed. And the keys that are to
be visited are those of open channels, so that they can be asked what they are ready for. -/
structure Serving (s : Server) : Prop where
  calls : ∀ call ∈ s.calls, call.rc = 0 ∨ call.rc = -1 ∧ call.opened = false
  selected : ∀ i readable writable, .client i readable writable ∈ s.selected →
    ∃ c, s.clients[i]? = some c ∧ c.sk.valid = true

/-- No exception, and the rest of the batch can be served. -/
def KeepsServing (t : Except RuntimeException Server) : Prop := ∃ s, t = .ok s ∧ s.Serving

/-- The client that the next turn reads from. -/
def reader (s : Server) : Option Client :=
  match s.selected with
  | .client i true _ :: _ => s.clients[i]?
  | _ => none

/-- A read brings a negative length behind the complete requests. -/
def BringsNegative (s : Server) : Event L → Prop
  | .visit (.data bytes) _ _ =>
    bytes ≠ [] ∧ ∃ c ∈ s.reader, Negative (cut requestFormat (c.inHand bytes)).2
  | _ => False

instance (s : Server) : ∀ e : Event L, Decidable (s.BringsNegative e)
  | .select _ => inferInstanceAs (Decidable False)
  | .visit .endOfStream _ _ => inferInstanceAs (Decidable False)
  | .visit .failed _ _ => inferInstanceAs (Decidable False)
  | .visit (.data bytes) _ _ =>
    inferInstanceAs (Decidable (bytes ≠ [] ∧ ∃ c ∈ s.reader, Negative _))

/-- The lengths that the event reads are not negative. -/
def NoNegative (t : Except RuntimeException Server) (e : Event L) : Prop :=
  match t with
  | .error _ => True
  | .ok s => ¬s.BringsNegative e

/-- What holds between two turns of the loop. -/
structure Inv (L : Nat) (s : Server) : Prop where
  serving : s.Serving
  distinct : (s.selected.map SelectedKey.owner).Nodup
  recvReady : ∀ c ∈ s.clients, c.RecvReady
  sendReady : ∀ c ∈ s.clients, c.SendReady L

theorem onReadable_ready (hr : c.RecvReady) (hs : c.SendReady L) (hvalid : c.sk.valid = true)
    {r : ReadResult} (htakes : c.Takes r)
    (hneg : ∀ bytes, r = .data bytes → bytes ≠ [] →
      ¬Negative (cut requestFormat (c.inHand bytes)).2) {resp : List UInt8}
    (hresp : resp.length = L) (w : WriteResult) : ∃ rc d, c.onReadable r resp w = .ok (rc, d) ∧
      d.RecvReady ∧ d.SendReady L ∧ (rc = 0 ∨ rc = -1 ∧ d.sk.valid = false) := by
  cases r with
  | data bytes =>
    by_cases hnil : bytes = []
    · subst hnil
      obtain ⟨d, hd, hready, hsame, -⟩ := Client.onReadable_nothing hs hvalid hresp w
      exact ⟨0, d, hd, hr.of_same hsame, hready, Or.inl rfl⟩
    · obtain ⟨d, hd, hready, hready', -⟩ :=
        Client.onReadable_data hr hs hvalid hnil htakes (hneg bytes rfl hnil) hresp w
      exact ⟨0, d, hd, hready, hready', Or.inl rfl⟩
  | endOfStream =>
    exact ⟨-1, c.closed, Client.onReadable_ends hvalid (Or.inl rfl) resp w, ⟨hr.limit, hr.capacity⟩,
      ⟨hs.limit, hs.start⟩, Or.inr ⟨rfl, rfl⟩⟩
  | failed =>
    exact ⟨-1, c.closed, Client.onReadable_ends hvalid (Or.inr rfl) resp w, ⟨hr.limit, hr.capacity⟩,
      ⟨hs.limit, hs.start⟩, Or.inr ⟨rfl, rfl⟩⟩

theorem onWritable_ready (hr : c.RecvReady) (hs : c.SendReady L) (hvalid : c.sk.valid = true)
    {resp : List UInt8} (hresp : resp.length = L) (w : WriteResult) :
    ∃ d, c.onWritable resp w = .ok d ∧ d.RecvReady ∧ d.SendReady L := by
  have hr' : Client.RecvReady { c with sk := { c.sk with ops := c.sk.ops.cancel OP_WRITE } } :=
    ⟨hr.limit, hr.capacity⟩
  have hs' : Client.SendReady L { c with sk := { c.sk with ops := c.sk.ops.cancel OP_WRITE } } :=
    ⟨hs.limit, hs.start⟩
  obtain ⟨d, hd, hready, hsame, -⟩ := Client.sendData_ready hs' hvalid hresp w
  refine ⟨d, ?_, hr'.of_same hsame, hready⟩
  simp only [Client.onWritable, Client.cancelEvent, Client.updateOps_valid hvalid]
  exact hd

/-- The client whose key is visited changes, and no key that is still to be visited is its. -/
theorem Inv.update (hi : s.Inv L) {i : Nat} {readable writable : Bool} {keys : List SelectedKey}
    (hsel : s.selected = .client i readable writable :: keys) (hr : d.RecvReady)
    (hs : d.SendReady L) {calls : List Call}
    (hcalls : ∀ call ∈ calls, call.rc = 0 ∨ call.rc = -1 ∧ call.opened = false) :
    Inv L { clients := s.clients.set i d, selected := keys, calls := s.calls ++ calls } := by
  have hdistinct := hi.distinct
  rw [hsel, List.map_cons, List.nodup_cons] at hdistinct
  refine { serving := ⟨?_, ?_⟩, distinct := hdistinct.2, recvReady := ?_, sendReady := ?_ }
  · intro call hcall
    rcases List.mem_append.mp hcall with h | h
    · exact hi.serving.calls call h
    · exact hcalls call h
  · intro j rd wr hj
    have hne : i ≠ j := by
      rintro rfl
      exact hdistinct.1 (List.mem_map.mpr ⟨_, hj, rfl⟩)
    show ∃ c, (s.clients.set i d)[j]? = some c ∧ _
    rw [List.getElem?_set_ne hne]
    refine hi.serving.selected j rd wr ?_
    rw [hsel]
    exact List.mem_cons_of_mem _ hj
  · intro c hc
    rcases List.mem_or_eq_of_mem_set hc with h | h
    · exact hi.recvReady c h
    · rw [h]
      exact hr
  · intro c hc
    rcases List.mem_or_eq_of_mem_set hc with h | h
    · exact hi.sendReady c h
    · rw [h]
      exact hs

/-- The next key is that of an open channel. -/
theorem Inv.head_valid (hi : s.Inv L) {i : Nat} {readable writable : Bool} {keys : List SelectedKey}
    (hsel : s.selected = .client i readable writable :: keys) (hc : s.clients[i]? = some c) :
    c.sk.valid = true := by
  obtain ⟨d, hd, hvalid⟩ := hi.serving.selected i readable writable (by
    rw [hsel]
    exact List.mem_cons_self)
  rw [hc] at hd
  cases hd
  exact hvalid

/-- A visit of the key of a client. -/
theorem Inv.serve (hi : s.Inv L) {i : Nat} {readable writable : Bool} {keys : List SelectedKey}
    (hsel : s.selected = .client i readable writable :: keys) (hc : s.clients[i]? = some c)
    {r : ReadResult} (htakes : c.Takes r) (resp : Client.Response L) (w : WriteResult)
    (hneg : ¬s.BringsNegative (.visit r resp w)) :
    ∃ s', { s with selected := keys }.serve c i readable writable r resp.text w = .ok s' ∧
      s'.Inv L := by
  have hmem : c ∈ s.clients := List.mem_of_getElem? hc
  have hr := hi.recvReady c hmem
  have hs := hi.sendReady c hmem
  have hvalid := hi.head_valid hsel hc
  have hask := SelectionKey.interestOps_valid hvalid
  cases readable with
  | true =>
    obtain ⟨rc, d, hd, hr', hs', hrc⟩ := onReadable_ready hr hs hvalid htakes (by
      rintro bytes rfl hnil hbad
      refine hneg ⟨hnil, c, ?_, hbad⟩
      rw [reader, hsel]
      exact hc) resp.size w
    refine
      ⟨{ clients := s.clients.set i d
         selected := keys
         calls := s.calls ++ [{ rc := rc, opened := d.sk.valid }] }, ?_, ?_⟩
    · simp [Server.serve, hask, hd]
    · refine hi.update hsel hr' hs' (fun call hcall => ?_)
      rw [List.mem_singleton.mp hcall]
      exact hrc
  | false =>
    cases writable with
    | true =>
      obtain ⟨d, hd, hr', hs'⟩ := onWritable_ready hr hs hvalid resp.size w
      refine ⟨{ s with clients := s.clients.set i d, selected := keys }, ?_, ?_⟩
      · simp [Server.serve, hask, hd]
      · have := hi.update hsel hr' hs' (fun _ hcall => absurd hcall List.not_mem_nil)
        rwa [List.append_nil] at this
    | false =>
      refine ⟨{ s with selected := keys }, ?_, ?_⟩
      · simp [Server.serve, hask]
      · have hset : s.clients.set i c = s.clients := by
          obtain ⟨hlt, rfl⟩ := List.getElem?_eq_some_iff.mp hc
          exact List.set_getElem_self hlt
        have := hi.update hsel hr hs (fun _ hcall => absurd hcall List.not_mem_nil)
        rwa [List.append_nil, hset] at this

/-- A negative length makes `recvData` throw. -/
theorem Inv.serve_negative (hi : s.Inv L) {r : ReadResult} {resp : Client.Response L}
    {w : WriteResult} (hneg : s.BringsNegative (.visit r resp w))
    {u : Except RuntimeException Server} (h : step (.ok s) (.visit r resp w) = some u) :
    u = .error .negativeArraySize := by
  cases r with
  | endOfStream => exact hneg.elim
  | failed => exact hneg.elim
  | data bytes =>
    obtain ⟨hnil, c, hc, hbad⟩ := hneg
    unfold reader at hc
    split at hc
    · next i writable keys hsel =>
      have hmem : c ∈ s.clients := List.mem_of_getElem? hc
      have hask := SelectionKey.interestOps_valid (hi.head_valid hsel hc)
      simp only [step, hsel, Option.mem_def.mp hc] at h
      split at h
      · next htakes =>
        have hthrow :=
          Client.onReadable_negative (hi.recvReady c hmem) hnil htakes hbad resp.text w
        simp only [Server.serve, hask, hthrow, if_true] at h
        exact (Option.some.inj h).symm
      · cases h
    · cases hc

/-- One event whose lengths are not negative. -/
theorem Inv.step (hL : L + 4 ≤ SEND_BUFF_LEN) (hi : s.Inv L) {e : Event L}
    (hneg : ¬s.BringsNegative e) {u : Except RuntimeException Server}
    (h : step (.ok s) e = some u) : ∃ s', u = .ok s' ∧ s'.Inv L := by
  cases e with
  | select keys =>
    simp only [Server.step] at h
    split at h
    · next hkeys =>
      obtain ⟨-, hdistinct, hall⟩ := hkeys
      refine ⟨_, (Option.some.inj h).symm, ?_⟩
      refine
        { serving := ⟨hi.serving.calls, ?_⟩, distinct := hdistinct, recvReady := hi.recvReady
          sendReady := hi.sendReady }
      intro i readable writable hmem
      obtain ⟨c, hc, hvalid, -⟩ := hall _ hmem
      exact ⟨c, hc, hvalid⟩
    · cases h
  | visit r resp w =>
    simp only [Server.step] at h
    split at h
    · cases h
    · next keys hsel =>
      refine ⟨_, (Option.some.inj h).symm, ?_⟩
      have hdistinct := hi.distinct
      rw [hsel, List.map_cons, List.nodup_cons] at hdistinct
      refine
        { serving := ⟨hi.serving.calls, ?_⟩, distinct := hdistinct.2, recvReady := ?_
          sendReady := ?_ }
      · intro i readable writable hmem
        obtain ⟨c, hc, hvalid⟩ := hi.serving.selected i readable writable (by
          rw [hsel]
          exact List.mem_cons_of_mem _ hmem)
        refine ⟨c, ?_, hvalid⟩
        show (s.clients ++ [Client.create])[i]? = some c
        rw [List.getElem?_append_left (List.getElem?_eq_some_iff.mp hc).1]
        exact hc
      · intro c hc
        rcases List.mem_append.mp hc with hc | hc
        · exact hi.recvReady c hc
        · rw [List.mem_singleton.mp hc]
          exact Client.create_recvReady
      · intro c hc
        rcases List.mem_append.mp hc with hc | hc
        · exact hi.sendReady c hc
        · rw [List.mem_singleton.mp hc]
          exact Client.create_sendReady hL
    · next i readable writable keys hsel =>
      split at h
      · cases h
      · next c hc =>
        split at h
        · next htakes =>
          obtain ⟨s', hs', hi'⟩ := hi.serve hsel hc htakes resp w hneg
          rw [hs'] at h
          exact ⟨s', (Option.some.inj h).symm, hi'⟩
        · cases h

theorem start_inv : start.Inv L where
  serving := ⟨fun _ h => absurd h List.not_mem_nil, fun _ _ _ h => absurd h List.not_mem_nil⟩
  distinct := List.nodup_nil
  recvReady := fun _ h => absurd h List.not_mem_nil
  sendReady := fun _ h => absurd h List.not_mem_nil

instance : ∀ (t : Except RuntimeException Server) (e : Event L), Decidable (NoNegative t e)
  | .error _, _ => inferInstanceAs (Decidable True)
  | .ok s, e => inferInstanceAs (Decidable (¬s.BringsNegative e))

/-- The loop goes on, with all its clients in order. -/
def Running (L : Nat) (t : Except RuntimeException Server) : Prop := ∃ s, t = .ok s ∧ s.Inv L

/--
**What a client can stop the server with.**

In a run with any number of clients and any segmentation, no exception leaves `process` and every
call of `recvData` returns 0 or closes its client and returns -1, exactly if no read brings a
negative length behind the complete requests.
-/
theorem keepsServing_iff (hL : L + 4 ≤ SEND_BUFF_LEN) (events : List (Event L))
    (t : Except RuntimeException Server) (hrun : replay step (.ok start) events = some t) :
    (∀ u, Visits step (.ok start) events u → KeepsServing u) ↔
      Along step (.ok start) events NoNegative := by
  have hstart : Running L (.ok start) := ⟨start, rfl, start_inv⟩
  refine exact_rule ?_ ?_ ?_ hstart hrun
  · rintro t ⟨s, rfl, hi⟩
    exact ⟨s, rfl, hi.serving⟩
  · rintro t e u ⟨s, rfl, hi⟩ hgood hstep
    exact hi.step hL hgood hstep
  · rintro t e u ⟨s, rfl, hi⟩ hbad hstep ⟨s', rfl, -⟩
    have hneg : s.BringsNegative e := not_not.mp hbad
    cases e with
    | select keys => exact hneg.elim
    | visit r resp w => cases hi.serve_negative hneg hstep

/-- A client connects and sends `bytes`. -/
def clientSends (bytes : List UInt8) : List (Event 37) :=
  [.select [.acceptable], .visit .endOfStream (Client.Response.blank 37) .failed,
    .select [.client 0 true false], .visit (.data bytes) (Client.Response.blank 37) (.room 1024)]

theorem emptyRequest_keepsServing : ∃ t,
    replay step (.ok start) (clientSends [0, 0, 0, 0]) = some t ∧
      ∀ u, Visits step (.ok start) (clientSends [0, 0, 0, 0]) u → KeepsServing u := by
  obtain ⟨hsome, hall⟩ : (replay step (.ok start) (clientSends [0, 0, 0, 0])).isSome ∧
      Along step (.ok start) (clientSends [0, 0, 0, 0]) NoNegative := by
    decide +kernel
  obtain ⟨t, ht⟩ := Option.isSome_iff_exists.mp hsome
  exact ⟨t, ht, (keepsServing_iff (by decide) _ t ht).mpr hall⟩

/-- The length -1 stops the server. -/
theorem negativeLength_stops :
    replay step (.ok start) (clientSends [255, 255, 255, 255]) = some (.error .negativeArraySize) ∧
      ¬KeepsServing (.error .negativeArraySize) := by
  refine ⟨?_, ?_⟩
  · decide +kernel
  · rintro ⟨s, hs, -⟩
    cases hs

end Server

end Nwchecker.Nonblock
