import Nwchecker.Connection.Stream

/-!
# Segmentation does not matter

A client that is sent a stream of packages processes exactly the packages that have arrived in
full, wherever the transport cuts the stream.
-/

namespace Nwchecker

open Words Framing Loop Machine

/-- The bytes that `recv` returned. -/
def Arrival.data (a : Arrival) : List UInt8 :=
  match a.call.final with
  | .ok data => data
  | .error _ => []

/-- There are answers for as many passes as a full buffer can need. -/
def Arrival.Answers (a : Arrival) : Prop := RECV_BUFFER_LEN / qosHdrLen < a.env.length

instance (a : Arrival) : Decidable a.Answers := inferInstanceAs (Decidable (_ < _))

/-- Everything a list of calls received. -/
def received (arrivals : List Arrival) : List UInt8 := arrivals.flatMap Arrival.data

/-- The connection is a client that has kept up with the stream. -/
structure KeptUp (s : Session) : Prop where
  client : s.conn.mode = .client
  inOrder : InOrder s s.conn.leftover
  rest : ¬qosFormat.Complete s.conn.leftover

theorem keeps_client : Keeps fun mode _ _ => mode = .client where
  processed := fun _ _ _ _ => rfl
  answered := by
    intro _ _ _ _ _ _ h
    cases h
  sent := fun _ _ _ _ => rfl

variable {stream : List (List UInt8)} {s : Session} {D : List UInt8} {n : Nat} {p : ParseState}

/-- With enough answers a client leaves the loop by the `break` in front of the rest. -/
theorem client_drains (hst : PackageStream stream) (hp : D <+: stream.flatten) (recvTs : UInt32)
    {envs : List PassEnv} (h : OnTrack (fun mode _ _ => mode = .client) D n p)
    (hlen : RECV_BUFFER_LEN / qosHdrLen < envs.length) :
    ∃ q, passes (parsePass recvTs) envs p = .leave (.drained q) ∧
      OnTrack (fun mode _ _ => mode = .client) D n q ∧ ¬qosFormat.Complete q.todo := by
  have hshort : p.todo.length / qosHdrLen < envs.length := by
    refine Nat.lt_of_le_of_lt (Nat.div_le_div_right ?_) hlen
    exact Nat.le_trans h.inside.todo_le h.inside.fits
  have hstep : ∀ env q q', OnTrack (fun mode _ _ => mode = .client) D n q →
      parsePass recvTs env q = .again q' →
      OnTrack (fun mode _ _ => mode = .client) D n q' ∧
        q'.todo.length / qosHdrLen < q.todo.length / qosHdrLen := by
    intro env q q' hq hb
    obtain ⟨hq', hshorter⟩ := (hq.pass recvTs env keeps_client hst hp).1 q' hb
    obtain ⟨-, hle⟩ := hshorter hq.kept
    refine ⟨hq', ?_⟩
    unfold qosHdrLen at *
    omega
  obtain ⟨r, hr⟩ := passes_leaves (fun q => q.todo.length / qosHdrLen) hstep h hshort
  have hexit := (passes_onTrack recvTs keeps_client hst hp h envs).2 r hr
  cases r with
  | drained q => exact ⟨q, hr, hexit⟩
  | closed t =>
    obtain ⟨hm, -, -, hk⟩ := hexit
    have : t.conn.mode = .client := hk
    rw [hm] at this
    cases this
  | wild q => exact hexit.elim

/-- One call on the next segment. -/
theorem KeptUp.onRecv (h : KeptUp s) (hst : PackageStream stream) {a : Arrival}
    (hseg : a.Segment) (hans : a.Answers) (hfits : a.Fits s.conn)
    (hp : s.sock.delivered ++ a.data <+: stream.flatten) :
    ∃ t, nwcConnectionOnRecv s a = .returned 0 t ∧ KeptUp t ∧
      t.sock.delivered = s.sock.delivered ++ a.data := by
  unfold Arrival.Segment at hseg
  unfold Arrival.data at hp ⊢
  rcases onRecv_cases s a with ⟨errno, hfin, ⟨-, heq⟩ | ⟨hne, -⟩⟩ | ⟨hfin, -⟩ |
    ⟨data, hfin, -, hdel, heq⟩
  · rw [hfin]
    exact ⟨s, heq, h, (List.append_nil _).symm⟩
  · rw [hfin] at hseg
    exact absurd hseg hne
  · rw [hfin] at hseg
    exact absurd rfl hseg
  · unfold Arrival.Fits at hfits
    rw [hfin] at hp hfits ⊢
    have hentry := onTrack_entry (R := fun mode _ _ => mode = .client) h.inOrder h.client hfits
    obtain ⟨q, hq, htrack, hc⟩ := client_drains hst hp a.recvTs hentry hans
    obtain ⟨t, hfinish, hord, hrest, hm⟩ := htrack.finish hc
    have hout : nwcConnectionOnRecv s a = .returned 0 t := by
      rw [heq, hq]
      exact hfinish
    refine ⟨t, hout, ⟨hm, hord, hrest⟩, ?_⟩
    rw [hout] at hdel
    exact hdel

/-- Any number of calls. -/
theorem KeptUp.run (hst : PackageStream stream) {arrivals : List Arrival} {s : Session}
    {o : Outcome} (h : KeptUp s) (hall : ∀ a ∈ arrivals, a.Segment ∧ a.Answers)
    (hp : s.sock.delivered ++ received arrivals <+: stream.flatten)
    (hrun : replay connStep (.returned 0 s) (arrivals.map .recv) = some o) :
    ∃ t, o = .returned 0 t ∧ KeptUp t ∧
      t.sock.delivered = s.sock.delivered ++ received arrivals := by
  induction arrivals generalizing s with
  | nil => exact ⟨s, (Option.some.inj hrun).symm, h, (List.append_nil _).symm⟩
  | cons a as ih =>
    obtain ⟨hseg, hans⟩ := hall a List.mem_cons_self
    rw [List.map_cons, replay_cons] at hrun
    obtain ⟨o₁, hstep, hrest⟩ := hrun
    have hsplit : received (a :: as) = a.data ++ received as := List.flatMap_cons
    rw [hsplit, ← List.append_assoc] at hp ⊢
    simp only [connStep] at hstep
    split at hstep
    · next hfits =>
      obtain ⟨t, hout, ht, hdel⟩ := h.onRecv hst hseg hans hfits
        ((List.prefix_append _ _).trans hp)
      rw [← Option.some.inj hstep, hout] at hrest
      rw [← hdel] at hp ⊢
      exact ih ht (fun b hb => hall b (List.mem_cons_of_mem _ hb)) hp hrest
    · cases hstep

theorem KeptUp.opened (bandwidth : Int) (recvBuff : RecvBuffer) (stale : UInt32)
    (io : NwcTcpHandler) :
    KeptUp (Session.opened (nwcConnectionInit .client bandwidth recvBuff stale) io) where
  client := rfl
  inOrder := ⟨rfl, fun f hf => absurd hf List.not_mem_nil⟩
  rest := by
    show ¬qosFormat.Complete []
    decide

/--
**Framing does not depend on segmentation.**

After every call the client has processed exactly the packages that have arrived in full, in
order, and `recv_buff[0..rbytes)` holds the bytes behind them. There is still room in the buffer,
so the next segment can be read.
-/
theorem onRecv_segmentation (stream : List (List UInt8)) (hst : PackageStream stream)
    (bandwidth : Int) (recvBuff : RecvBuffer) (stale : UInt32) (io : NwcTcpHandler)
    (arrivals : List Arrival) (hseg : ∀ a ∈ arrivals, a.Segment ∧ a.Answers)
    (hp : received arrivals <+: stream.flatten) (o : Outcome)
    (hrun : replay connStep
      (.returned 0 (Session.opened (nwcConnectionInit .client bandwidth recvBuff stale) io))
      (arrivals.map .recv) = some o) :
    ∃ s, o = .returned 0 s ∧
      s.handed = fullyReceived stream (received arrivals).length ∧
      s.conn.leftover = (received arrivals).drop s.handed.flatten.length ∧
      s.conn.rbytes < RECV_BUFFER_LEN := by
  obtain ⟨t, ho, hkept, hdel⟩ := KeptUp.run hst (KeptUp.opened bandwidth recvBuff stale io) hseg
    hp hrun
  have hdel' : t.sock.delivered = received arrivals := hdel
  rw [← hdel'] at hp ⊢
  have hparsed : Parsed qosFormat t.sock.delivered t.handed t.conn.leftover :=
    ⟨hkept.inOrder.eq, hkept.inOrder.frames, hkept.rest⟩
  refine ⟨t, ho, hparsed.eq_fullyReceived (fun f hf => (hst f hf).1) hp, ?_, ?_⟩
  · conv_rhs => rw [hkept.inOrder.eq]
    exact (List.drop_left' rfl).symm
  · rw [← NwcConnection.leftover_length]
    exact hkept.inOrder.rest_lt hst hp hkept.rest

/-- A call that reads `data`, with answers that never change. -/
def Arrival.sample (data : List UInt8) : Arrival where
  call := .done data
  recvTs := 0
  env := List.replicate 257 steadyEnv

/-- Two empty packages, cut in the middle of the first header. -/
theorem twoPackages_segmentation : ∃ s,
    replay connStep (.returned 0 (Session.sample .client))
      ([Arrival.sample (List.replicate 10 0), Arrival.sample (List.replicate 22 0)].map .recv)
        = some (.returned 0 s) ∧
      s.handed = [List.replicate 16 0, List.replicate 16 0] := by
  have hsome : (replay connStep (.returned 0 (Session.sample .client))
      ([Arrival.sample (List.replicate 10 0), Arrival.sample (List.replicate 22 0)].map
        .recv)).isSome := by decide +kernel
  obtain ⟨o, ho⟩ := Option.isSome_iff_exists.mp hsome
  have hst : PackageStream [List.replicate 16 0, List.replicate 16 0] := by
    intro f hf
    have : f = List.replicate 16 0 := by simpa using hf
    rw [this]
    decide
  obtain ⟨s, rfl, hhanded, -⟩ := onRecv_segmentation [List.replicate 16 0, List.replicate 16 0] hst
    0 RecvBuffer.zero 0 { nwcTcpHandlerInit true with state := .established }
    [Arrival.sample (List.replicate 10 0), Arrival.sample (List.replicate 22 0)]
    (by
      intro a ha
      have : a = Arrival.sample (List.replicate 10 0) ∨
          a = Arrival.sample (List.replicate 22 0) := by
        simpa using ha
      rcases this with rfl | rfl <;> decide +kernel)
    (by decide) o ho
  exact ⟨s, ho, hhanded⟩

end Nwchecker
