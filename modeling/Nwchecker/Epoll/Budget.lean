import Nwchecker.Epoll.Bandwidth

/-!
# The budget of one tick

`nwc_connection_init` turns the bandwidth, in bits per second, into `send_bandwidth`, the bytes of
a twentieth of a second, and `nwc_connection_on_send` sends packages until the transport has taken
as many bytes. `tick_budget` says how much that is, whatever share of each package the transport
takes: the loop leaves after at most one pass more than there are bytes to send, since a pass that
goes on has sent one.
-/

namespace Nwchecker

open Words Machine Loop

/-! ## The share of a tick -/

/-- A twentieth of the bytes per second, rounded up. -/
theorem init_sendBandwidth {bandwidth : Int} (hpos : 1 ≤ bandwidth) (hint : bandwidth < 2147483648)
    (recvBuff : RecvBuffer) (stale : UInt32) :
    ((nwcConnectionInit .client bandwidth recvBuff stale).qos.sendBandwidth.toNat : Int)
      = (bandwidth / 8 + 19) / 20 := by
  have hu : (u32 bandwidth : Int) = bandwidth := by
    rw [u32_of_nonneg (by omega) (by omega)]
    omega
  have hne : u32 bandwidth ≠ 0 := by omega
  show ((UInt32.ofNat
    (((if u32 bandwidth = 0 then 125000 else u32 bandwidth / 8) + 19) / 20)).toNat : Int) = _
  rw [if_neg hne, UInt32.toNat_ofNat']
  omega

/-- Whatever happens to a client, it keeps its settings. -/
theorem ClientWith.connStep {bw : UInt32} {o o' : Outcome} {ev : ConnEvent}
    (h : ClientWith bw o.session) (hstep : Nwchecker.connStep o ev = some o') :
    ClientWith bw o'.session := by
  refine connStep_rule (P := ClientWith bw) (Q := fun o => ClientWith bw o.session)
    (fun _ _ => Iff.rfl) ?_ ?_ ?_ ?_ o ev o' h hstep
  · intro s io hs
    exact ⟨hs.client, hs.bandwidth, hs.fits⟩
  · intro s a hs _
    obtain ⟨-, -, -, hbw⟩ := (onRecv_processed s a).counters
    exact ⟨(onRecv_client hs.client a).1, hbw.trans hs.bandwidth, hs.fits⟩
  · intro s envs hs
    obtain ⟨t, ht, hout⟩ := onSend_rule (P := ClientWith bw) (fun s env _ h => h.tickSent env)
      (fun s h => ⟨h.client, h.bandwidth, h.fits⟩) s envs hs
    rcases hout with ⟨rc, hout⟩ | ⟨rc, hout⟩ | hout
    · rw [hout]
      exact ht
    · rw [hout]
      exact ht
    · rw [hout]
      exact ht
  · intro s now _ hs
    exact ⟨hs.client, (stat_sendBandwidth _ now).trans hs.bandwidth, hs.fits⟩

/-! ## One pass -/

/-- What the loop has done so far. `cur_sentbytes` is the number of bytes taken, unwrapped. -/
structure Spending (bw : UInt32) (s : Session) (new : List SendRecord) (p : SendState) : Prop where
  sent : HasSent bw s new p.session
  exact : p.cur.toNat = takenBytes new
  le : p.cur.toNat ≤ bw.toNat + 1315
  idle : bw.toNat = 0 → new = []

variable {bw : UInt32} {s : Session} {new : List SendRecord} {p p' : SendState} {env : SendEnv}

/-- A pass that goes on has brought `cur_sentbytes` closer to the budget. -/
theorem Spending.again (h : Spending bw s new p) (henv : env.Fits)
    (hb : sendPass env p = .again p') :
    Spending bw s (new ++ [offered env p.session]) p' ∧
      bw.toNat - p'.cur.toNat < bw.toNat - p.cur.toNat := by
  rcases sendPass_cases env p with ⟨-, heq⟩ | ⟨-, heq | heq⟩ | ⟨hcur, hpos, heq⟩
  · rw [heq] at hb
    cases hb
  · rw [heq] at hb
    cases hb
  · rw [heq] at hb
    cases hb
  · rw [heq] at hb
    cases hb
    obtain ⟨hadd, hlt, hbound⟩ := h.sent.settings.cur_add hcur hpos henv
    refine ⟨⟨h.sent.tickSent env, ?_, hadd.trans_le hbound, ?_⟩, ?_⟩
    · rw [takenBytes_concat, ← h.exact]
      exact hadd
    · intro h0
      omega
    · show bw.toNat - (p.cur + _).toNat < _
      omega

/-- How much a tick without a failed send has sent. -/
def SpentBudget (budget : Nat) (new : List SendRecord) : Prop :=
  (∀ r ∈ new, 0 < r.rc) →
    if budget = 0 then takenBytes new = 0
    else budget ≤ takenBytes new ∧ takenBytes new ≤ budget + 1315

/-- A pass that leaves has spent the budget, or a send has failed. -/
theorem Spending.leave (h : Spending bw s new p) {r : SendExit}
    (hb : sendPass env p = .leave r) :
    ∃ new', r.session.sock.sends = s.sock.sends ++ new' ∧ SpentBudget bw.toNat new' := by
  rcases sendPass_cases env p with ⟨hcur, heq⟩ | ⟨hrc, hfailed⟩ | ⟨-, -, heq⟩
  · rw [heq] at hb
    cases hb
    refine ⟨new, h.sent.sends, fun _ => ?_⟩
    rw [h.sent.settings.bandwidth, UInt32.le_iff_toNat_le] at hcur
    have hexact := h.exact
    have hle := h.le
    split
    · next h0 =>
      rw [h.idle h0]
      rfl
    · omega
  · have hsends : r.session.sock.sends = p.session.sock.sends ++ [offered env p.session] := by
      rw [← tickSent_sends]
      rcases hfailed with heq | heq
      · rw [heq] at hb
        cases hb
        rfl
      · rw [heq] at hb
        cases hb
        rfl
    refine ⟨new ++ [offered env p.session], ?_, fun hall => ?_⟩
    · rw [hsends, h.sent.sends, List.append_assoc]
    · have hpos : 0 < nwcTcpHandlerSendRc env.call :=
        hall (offered env p.session) (List.mem_append_right _ (List.mem_singleton_self _))
      omega
  · rw [heq] at hb
    cases hb

/-! ## One tick -/

/-- The loop of a client keeps its books and leaves when there are inputs enough. -/
theorem sendLoop_spends (h : ClientWith bw s) (envs : List SendEnv)
    (henvs : ∀ env ∈ envs, env.Fits) :
    (∀ p, passes sendPass envs { session := s, cur := 0, rc := 0 } = .again p →
        ∃ new, Spending bw s new p) ∧
      (bw.toNat < envs.length →
        ∃ r new, passes sendPass envs { session := s, cur := 0, rc := 0 } = .leave r ∧
          r.session.sock.sends = s.sock.sends ++ new ∧ SpentBudget bw.toNat new) := by
  have hstart : ∃ new, Spending bw s new { session := s, cur := 0, rc := 0 } :=
    ⟨[], ⟨h, (List.append_nil _).symm⟩, rfl, Nat.zero_le _, fun _ => rfl⟩
  obtain ⟨hagain, hleave⟩ := passes_rule (I := SendEnv.Fits)
    (P := fun p => ∃ new, Spending bw s new p)
    (Q := fun r => ∃ new, r.session.sock.sends = s.sock.sends ++ new ∧ SpentBudget bw.toNat new)
    (fun _ _ _ henv ⟨_, hp⟩ hb => ⟨_, (hp.again henv hb).1⟩)
    (fun _ _ _ _ ⟨_, hp⟩ hb => hp.leave hb) envs henvs hstart
  refine ⟨hagain, fun hlen => ?_⟩
  obtain ⟨r, hr⟩ := passes_leaves_of (I := SendEnv.Fits) (P := fun p => ∃ new, Spending bw s new p)
    (fun p => bw.toNat - p.cur.toNat)
    (fun _ _ _ henv ⟨_, hp⟩ hb => ⟨⟨_, (hp.again henv hb).1⟩, (hp.again henv hb).2⟩)
    henvs hstart (by simpa using hlen)
  obtain ⟨new, hsends, hspent⟩ := hleave r hr
  exact ⟨r, new, hr, hsends, hspent⟩

/--
**The budget of a tick.**

For every client, after whatever has happened to it, its statistics included: its share is a
twentieth of the bandwidth, rounded up; `cur_sentbytes` is always the number of bytes that the
transport has taken in the tick; and with one input more than the share has bytes the callback is
done, and has sent the share and at most 1315 bytes more unless a send has failed.
-/
theorem tick_budget (bandwidth : Int) (hpos : 1 ≤ bandwidth) (hint : bandwidth < 2147483648)
    (recvBuff : RecvBuffer) (stale : UInt32) (io : NwcTcpHandler) {es : List ConnEvent} {rc : Int}
    {s : Session}
    (hrun : replay connStep
      (.returned 0 (.opened (nwcConnectionInit .client bandwidth recvBuff stale) io)) es
        = some (.returned rc s)) (hcan : s.io.canSend = true) :
    ∃ budget, s.conn.qos.sendBandwidth.toNat = budget ∧ bandwidth / 8 ≤ 20 * budget ∧
      20 * budget < bandwidth / 8 + 20 ∧ budget + 1315 < 4294967296 ∧
      ∀ envs : List SendEnv, (∀ env ∈ envs, env.Fits) →
        (∀ p, passes sendPass envs { session := s, cur := 0, rc := 0 } = .again p →
          ∃ new, p.session.sock.sends = s.sock.sends ++ new ∧ p.cur.toNat = takenBytes new) ∧
        (budget < envs.length →
          ∃ t new, ((∃ rc, nwcConnectionOnSend s envs = .returned rc t) ∨
              ∃ rc, nwcConnectionOnSend s envs = .closed rc t) ∧
            t.sock.sends = s.sock.sends ++ new ∧ SpentBudget budget new) := by
  have hset : ClientWith (nwcConnectionInit .client bandwidth recvBuff stale).qos.sendBandwidth
      s :=
    replay_invariant (P := fun o => ClientWith _ o.session) (I := fun _ => True)
      (fun _ _ _ _ h hstep => h.connStep hstep) (fun _ _ => trivial)
      (init_clientWith bandwidth recvBuff stale io) hrun
  have hshare := init_sendBandwidth hpos hint recvBuff stale
  have hfits := hset.fits
  refine ⟨_, congrArg UInt32.toNat hset.bandwidth, by omega, by omega, by omega,
    fun envs henvs => ?_⟩
  obtain ⟨hagain, hleave⟩ := sendLoop_spends hset envs henvs
  refine ⟨fun p hp => ?_, fun hlen => ?_⟩
  · obtain ⟨new, hspending⟩ := hagain p hp
    exact ⟨new, hspending.sent.sends, hspending.exact⟩
  · obtain ⟨r, new, hr, hsends, hspent⟩ := hleave hlen
    refine ⟨r.session, new, ?_, hsends, hspent⟩
    rw [nwcConnectionOnSend, if_pos hcan, hset.client]
    simp only [hr]
    cases r with
    | done rc t => exact Or.inl ⟨rc, rfl⟩
    | closed rc t => exact Or.inr ⟨rc, rfl⟩

/-- A client with eight kilobits a second whose statistics have run. -/
def Session.slow : Session :=
  (nwcConnectionStat (.opened (nwcConnectionInit .client 8000 RecvBuffer.zero 0)
    { nwcTcpHandlerInit true with state := .established }) 1).1

/-- Eight kilobits a second are 50 bytes a tick, here taken one by one. -/
theorem byteByByte_budget :
    ∃ t new, ((∃ rc, nwcConnectionOnSend Session.slow
        (List.replicate 51 (SendEnv.sample (.done 1))) = .returned rc t) ∨
      ∃ rc, nwcConnectionOnSend Session.slow
        (List.replicate 51 (SendEnv.sample (.done 1))) = .closed rc t) ∧
      t.sock.sends = new ∧ SpentBudget 50 new := by
  have hrun : replay connStep (.returned 0 (.opened
      (nwcConnectionInit .client 8000 RecvBuffer.zero 0)
        { nwcTcpHandlerInit true with state := .established })) [.stat 1]
      = some (.returned 0 Session.slow) := rfl
  obtain ⟨budget, hbw, -, -, -, h⟩ := tick_budget 8000 (by decide) (by decide) RecvBuffer.zero 0
    { nwcTcpHandlerInit true with state := .established } hrun rfl
  obtain rfl : 50 = budget := hbw
  exact (h (List.replicate 51 (SendEnv.sample (.done 1)))
    (fun env henv => by rw [List.eq_of_mem_replicate henv]; decide)).2 (by decide)

end Nwchecker
