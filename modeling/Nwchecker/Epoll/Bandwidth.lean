import Nwchecker.Connection.Accounting
import Nwchecker.Connection.Segmentation
import Nwchecker.Lib.Pacing

/-!
# The bandwidth of a client

`nwc_connection_on_send` may send `send_bandwidth` bytes, a twentieth of a second's share, every
time the send worker runs. The worker runs once in every round of `nwc_epoll_run`, and a round
takes `SCHEDULE_TIMER` milliseconds only when `epoll_wait` times out; a readable ack, or an
interrupt, makes it shorter.

The machine of this file runs the loop with one client connection, and gives every step the time
that has passed. `bandwidth_of_spaced` says that the bandwidth is respected when the runs of the
worker are `SCHEDULE_TIMER` apart.
-/

namespace Nwchecker

open Words Machine Loop Pacing

/-! ## The loop -/

/-- `SCHEDULE_TIMER`, the `timeout_interval` of the looper, in milliseconds -/
def SCHEDULE_TIMER : Nat := 50

/-- Milliseconds in the unit of the clock, which is a nanosecond. -/
def millis (n : Nat) : Nat := n * 1000000

/-- One pass of the send loop, `elapsed` after the one before. -/
structure TimedSend where
  elapsed : Nat
  env : SendEnv

/-- Where `nwc_epoll_run` is. -/
inductive LoopPhase where
  /-- at `nwc_looper_dispatch_worker` -/
  | workers
  /-- at `epoll_wait` -/
  | wait
  /-- after `epoll_wait`, with the ready entries -/
  | events
  deriving DecidableEq, Repr

inductive LoopEvent where
  /-- The statistics worker and then the send worker, as `nwc_connection_send` registers them. -/
  | dispatch (statNow : UInt32) (sends : List TimedSend)
  | timeout (elapsed : Nat)
  /-- `EINTR` -/
  | interrupted (elapsed : Nat)
  | ready (elapsed : Nat)
  | handleInput (elapsed : Nat) (a : Arrival)
  | handleOutput (elapsed : Nat) (soError : Int) (sends : List TimedSend)
  /-- The removed entries and workers are released. -/
  | sweep

/-- The loop with its connection, the time, and what the runs of `on_send` sent. -/
structure LoopRun where
  outcome : Outcome
  phase : LoopPhase
  clock : Nat
  bursts : List Burst

/-- When the pass `k` of a run sends. -/
def sendInstant (start : Nat) (sends : List TimedSend) (k : Nat) : Nat :=
  start + ((sends.take (k + 1)).map TimedSend.elapsed).sum

/-- The sends of one run of `on_send`, with their instants. -/
def burstOf (start : Nat) (sends : List TimedSend) (new : List SendRecord) : Burst where
  start := start
  finish := start + (sends.map TimedSend.elapsed).sum
  amounts := new.zipIdx.map fun r => (sendInstant start sends r.2, r.1.rc.toNat)

/-- `nwc_connection_on_send` from `start` on. A run that finds `can_send` set is a burst. -/
def LoopRun.onSend (l : LoopRun) (s : Session) (start : Nat) (sends : List TimedSend)
    (phase : LoopPhase) : LoopRun :=
  let o := nwcConnectionOnSend s (sends.map TimedSend.env)
  let burst := burstOf start sends (o.session.sock.sends.drop s.sock.sends.length)
  { outcome := o
    phase := phase
    clock := burst.finish
    bursts := if s.io.canSend then l.bursts ++ [burst] else l.bursts }

/-- The transport takes no more than it is offered. -/
def SendEnv.Fits (env : SendEnv) : Prop := nwcTcpHandlerSendRc env.call ≤ 1316

instance (env : SendEnv) : Decidable env.Fits := inferInstanceAs (Decidable (_ ≤ _))

/-- One step of the loop. Without its connection it does nothing that is of interest here. -/
def epollStep (l : LoopRun) (ev : LoopEvent) : Option LoopRun :=
  match l.outcome, l.phase, ev with
  | .returned _ s, .workers, .dispatch statNow sends =>
    if ∀ e ∈ sends, e.env.Fits then
      some (l.onSend (nwcConnectionStat s statNow).1 l.clock sends .wait)
    else none
  | .returned _ _, .wait, .timeout elapsed =>
    if millis SCHEDULE_TIMER ≤ elapsed then
      some { l with phase := .events, clock := l.clock + elapsed }
    else none
  | .returned _ _, .wait, .interrupted elapsed =>
    some { l with phase := .workers, clock := l.clock + elapsed }
  | .returned _ _, .wait, .ready elapsed =>
    some { l with phase := .events, clock := l.clock + elapsed }
  | .returned rc s, .events, .handleInput elapsed a =>
    match connStep (.returned rc s) (.recv a) with
    | some o => some { l with outcome := o, clock := l.clock + elapsed }
    | none => none
  | .returned rc s, .events, .handleOutput elapsed soError sends =>
    let r := nwcTcpHandleOutput s.io soError
    match r.2 with
    | some .onSend =>
      if ∀ e ∈ sends, e.env.Fits then
        some (l.onSend { s with io := r.1 } (l.clock + elapsed) sends .events)
      else none
    | _ => some { l with outcome := .returned rc { s with io := r.1 }, clock := l.clock + elapsed }
  | .returned _ _, .events, .sweep => some { l with phase := .workers }
  | _, _, _ => none

/-- A client connection before its first run of the workers. -/
def LoopRun.start (bandwidth : Int) (recvBuff : RecvBuffer) (stale : UInt32) (io : NwcTcpHandler)
    (clock : Nat) : LoopRun where
  outcome := .returned 0 (Session.opened (nwcConnectionInit .client bandwidth recvBuff stale) io)
  phase := .workers
  clock := clock
  bursts := []

/-- When the event runs `on_send` with `can_send` set: the instant at which it does. -/
def LoopRun.burstAt (l : LoopRun) : LoopEvent → Option Nat
  | .dispatch _ _ => if l.outcome.session.io.canSend then some l.clock else none
  | .handleOutput elapsed soError _ =>
    let r := nwcTcpHandleOutput l.outcome.session.io soError
    if r.2 = some .onSend ∧ r.1.canSend then some (l.clock + elapsed) else none
  | _ => none

/-- A run of `on_send` that may send comes `SCHEDULE_TIMER` or more after the ones before it. -/
def SpacedRun (l : LoopRun) (ev : LoopEvent) : Prop :=
  ∀ start, l.burstAt ev = some start →
    ∀ b ∈ l.bursts, b.finish + millis SCHEDULE_TIMER ≤ start

instance (l : LoopRun) (ev : LoopEvent) : Decidable (SpacedRun l ev) :=
  inferInstanceAs (Decidable (∀ start ∈ l.burstAt ev, _))

/-! ## One run of `on_send` -/

/-- The bytes that the transport took. -/
def takenBytes (sends : List SendRecord) : Nat := (sends.map fun r => r.rc.toNat).sum

/-- The settings of a client: `send_bandwidth` is `bw`, and adding a package to it does not wrap. -/
structure ClientWith (bw : UInt32) (s : Session) : Prop where
  client : s.conn.mode = .client
  bandwidth : s.conn.qos.sendBandwidth = bw
  fits : bw.toNat + 1316 < 4294967296

/-- The session of a client after it has sent `new`. -/
structure HasSent (bw : UInt32) (s : Session) (new : List SendRecord) (t : Session) : Prop where
  settings : ClientWith bw t
  sends : t.sock.sends = s.sock.sends ++ new

theorem ClientWith.tickSent {bw : UInt32} {s : Session} (h : ClientWith bw s) (env : SendEnv) :
    ClientWith bw (Nwchecker.tickSent env s) := by
  refine ⟨(tickSent_mode env s).trans h.client, ?_, h.fits⟩
  rw [tickSent_qos]
  exact h.bandwidth

theorem HasSent.tickSent {bw : UInt32} {s t : Session} {new : List SendRecord}
    (h : HasSent bw s new t) (env : SendEnv) :
    HasSent bw s (new ++ [offered env t]) (Nwchecker.tickSent env t) := by
  refine ⟨h.settings.tickSent env, ?_⟩
  rw [tickSent_sends, h.sends, List.append_assoc]

theorem takenBytes_concat (new : List SendRecord) (r : SendRecord) :
    takenBytes (new ++ [r]) = takenBytes new + r.rc.toNat := by
  rw [takenBytes, List.map_append, List.sum_append]
  rfl

/-- Inside the loop: `cur_sentbytes` is what has been taken, and at most one package too much. -/
def InBudget (bw : UInt32) (s : Session) (p : SendState) : Prop :=
  ∃ new, HasSent bw s new p.session ∧ takenBytes new = p.cur.toNat ∧
    p.cur.toNat ≤ bw.toNat + 1315

/-- What a run leaves behind. -/
def SentWithin (bw : UInt32) (s t : Session) : Prop :=
  ∃ new, HasSent bw s new t ∧ takenBytes new ≤ bw.toNat + 1315

theorem InBudget.sentWithin {bw : UInt32} {s : Session} {p : SendState} (h : InBudget bw s p) :
    SentWithin bw s p.session := by
  obtain ⟨new, hsent, htaken, hle⟩ := h
  exact ⟨new, hsent, htaken ▸ hle⟩

/-- A run that stops sends nothing more. -/
theorem SentWithin.close {bw : UInt32} {s t : Session} (h : SentWithin bw s t) :
    SentWithin bw s (nwcConnectionClose t) := by
  obtain ⟨new, ⟨⟨hclient, hbw, hfits⟩, hsends⟩, hle⟩ := h
  exact ⟨new, ⟨⟨hclient, hbw, hfits⟩, hsends⟩, hle⟩

def SendExit.session : SendExit → Session
  | .done _ s => s
  | .closed _ s => s

/-- `cur_sentbytes` does not wrap: a package is added to less than the budget. -/
theorem ClientWith.cur_add {bw : UInt32} {s : Session} (h : ClientWith bw s) {cur : UInt32}
    {env : SendEnv} (hcur : cur < s.conn.qos.sendBandwidth)
    (hpos : 0 < nwcTcpHandlerSendRc env.call) (henv : env.Fits) :
    (cur + UInt32.ofNat (u32 (nwcTcpHandlerSendRc env.call))).toNat
        = cur.toNat + (nwcTcpHandlerSendRc env.call).toNat ∧
      cur.toNat < bw.toNat ∧
      cur.toNat + (nwcTcpHandlerSendRc env.call).toNat ≤ bw.toNat + 1315 := by
  have hfits := h.fits
  unfold SendEnv.Fits at henv
  rw [h.bandwidth, UInt32.lt_iff_toNat_lt] at hcur
  have hu : u32 (nwcTcpHandlerSendRc env.call) = (nwcTcpHandlerSendRc env.call).toNat :=
    u32_of_nonneg (by omega) (by omega)
  rw [hu, UInt32.toNat_add, UInt32.toNat_ofNat']
  omega

theorem InBudget.pass {bw : UInt32} {s : Session} {p : SendState} {env : SendEnv}
    (h : InBudget bw s p) (henv : env.Fits) :
    (∀ p', sendPass env p = .again p' → InBudget bw s p') ∧
      (∀ r, sendPass env p = .leave r → SentWithin bw s r.session) := by
  obtain ⟨new, hsent, htaken, hle⟩ := h
  have hsent' := hsent.tickSent env
  have htotal : takenBytes (new ++ [offered env p.session])
      = takenBytes new + (nwcTcpHandlerSendRc env.call).toNat := takenBytes_concat new _
  rcases sendPass_cases env p with ⟨-, heq⟩ | ⟨hrc, hfailed⟩ | ⟨hcur, hpos, heq⟩
  · rw [heq]
    exact Flow.at_leave ⟨new, hsent, htaken ▸ hle⟩
  · have hnone : (nwcTcpHandlerSendRc env.call).toNat = 0 := Int.toNat_of_nonpos hrc
    have hwithin : SentWithin bw s (tickSent env p.session) := ⟨_, hsent', by omega⟩
    rcases hfailed with heq | heq
    · rw [heq]
      exact Flow.at_leave hwithin
    · rw [heq]
      exact Flow.at_leave hwithin.close
  · rw [heq]
    obtain ⟨hadd, -, hbound⟩ := hsent.settings.cur_add hcur hpos henv
    refine Flow.at_again ⟨_, hsent', ?_, ?_⟩
    · rw [htotal, htaken]
      exact hadd.symm
    · exact hadd.trans_le hbound

/-- **The budget of one run.** It sends at most `send_bandwidth`, and the package that passes it. -/
theorem onSend_sentWithin {bw : UInt32} {s : Session} (h : ClientWith bw s) (envs : List SendEnv)
    (henvs : ∀ env ∈ envs, env.Fits) :
    SentWithin bw s (nwcConnectionOnSend s envs).session ∧
      (s.io.canSend = false → nwcConnectionOnSend s envs = .returned 0 s) := by
  have hstart : HasSent bw s [] s := ⟨h, (List.append_nil _).symm⟩
  unfold nwcConnectionOnSend
  split
  · next hcan =>
    refine ⟨?_, fun hno => by rw [hcan] at hno; cases hno⟩
    obtain ⟨hagain, hleave⟩ := passes_rule (I := SendEnv.Fits) (P := InBudget bw s)
      (Q := fun r => SentWithin bw s r.session)
      (fun env p p' henv hp hb => (hp.pass henv).1 p' hb)
      (fun env p r henv hp hb => (hp.pass henv).2 r hb) envs henvs
      (s := { session := s, cur := 0, rc := 0 }) ⟨[], hstart, rfl, Nat.zero_le _⟩
    split
    · split
      · next p hp => exact (hagain p hp).sentWithin
      · next rc t hp => exact hleave _ hp
      · next rc t hp => exact hleave _ hp
    · exact ⟨[], hstart, Nat.zero_le _⟩
  · exact ⟨⟨[], hstart, Nat.zero_le _⟩, fun _ => rfl⟩

/-! ## The run of the loop -/

/-- The invariant of the loop, with the bandwidth `bw`. -/
structure Paced (bw : UInt32) (l : LoopRun) : Prop where
  settings : ClientWith bw l.outcome.session
  within : ∀ b ∈ l.bursts, b.Within (bw.toNat + 1315)
  spaced : Spaced (millis SCHEDULE_TIMER) l.bursts
  /-- The bursts are all that has been sent. -/
  log : (l.bursts.flatMap fun b => b.amounts.map Prod.snd)
    = l.outcome.session.sock.sends.map fun r => r.rc.toNat

variable {bw : UInt32} {l l' : LoopRun} {s : Session}

theorem burstOf_amounts (start : Nat) (sends : List TimedSend) (new : List SendRecord) :
    (burstOf start sends new).amounts.map Prod.snd = new.map fun r => r.rc.toNat := by
  unfold burstOf
  rw [List.map_map, ← List.zipIdx_map_fst 0 new, List.map_map, List.zipIdx_map_fst]
  rfl

/-- The sends of a run lie between its start and its end. -/
theorem burstOf_within (start : Nat) (sends : List TimedSend) {new : List SendRecord} {most : Nat}
    (h : takenBytes new ≤ most) : (burstOf start sends new).Within most := by
  refine ⟨fun a ha => ?_, ?_⟩
  · obtain ⟨r, -, rfl⟩ := List.mem_map.mp ha
    refine ⟨Nat.le_add_right _ _, Nat.add_le_add_left ?_ start⟩
    exact ((List.take_sublist _ sends).map _).sum_le_sum fun _ _ => Nat.zero_le _
  · rw [burstOf_amounts]
    exact h

/-- A run of `on_send` that comes late enough. -/
theorem Paced.onSend (h : Paced bw l) (hset : ClientWith bw s)
    (hsends : s.sock.sends = l.outcome.session.sock.sends) {sends : List TimedSend}
    (hfits : ∀ e ∈ sends, e.env.Fits) {start : Nat} (phase : LoopPhase)
    (hlate : s.io.canSend = true → ∀ b ∈ l.bursts, b.finish + millis SCHEDULE_TIMER ≤ start) :
    Paced bw (l.onSend s start sends phase) := by
  obtain ⟨⟨new, ⟨hset', hnew⟩, htaken⟩, hidle⟩ := onSend_sentWithin hset (sends.map TimedSend.env)
    (by
      intro env henv
      obtain ⟨e, he, rfl⟩ := List.mem_map.mp henv
      exact hfits e he)
  have hdrop : ((nwcConnectionOnSend s (sends.map TimedSend.env)).session.sock.sends.drop
      s.sock.sends.length) = new := by
    rw [hnew]
    exact List.drop_left
  cases hcan : s.io.canSend with
  | true =>
    have hbursts : (l.onSend s start sends phase).bursts
        = l.bursts ++ [burstOf start sends new] := by
      simp only [LoopRun.onSend, hcan, hdrop, if_true]
    refine ⟨hset', ?_, ?_, ?_⟩
    · rw [hbursts]
      intro b hb
      rcases List.mem_append.mp hb with hb | hb
      · exact h.within b hb
      · rw [List.mem_singleton.mp hb]
        exact burstOf_within start sends htaken
    · rw [hbursts, Spaced, List.pairwise_append]
      refine ⟨h.spaced, List.pairwise_singleton _ _, fun b hb b' hb' => ?_⟩
      rw [List.mem_singleton.mp hb']
      exact hlate hcan b hb
    · show _ = (nwcConnectionOnSend s (sends.map TimedSend.env)).session.sock.sends.map _
      rw [hbursts, List.flatMap_append, h.log, hnew, List.map_append, hsends]
      simp [burstOf_amounts]
  | false =>
    have hsame := hidle hcan
    have hbursts : (l.onSend s start sends phase).bursts = l.bursts := by
      simp [LoopRun.onSend, hcan]
    refine ⟨hset', ?_, ?_, ?_⟩
    · rw [hbursts]
      exact h.within
    · rw [hbursts]
      exact h.spaced
    · show _ = (nwcConnectionOnSend s (sends.map TimedSend.env)).session.sock.sends.map _
      rw [hbursts, h.log, hsame, ← hsends]
      rfl

/-- One step of the loop. -/
theorem Paced.step {ev : LoopEvent} (h : Paced bw l) (hspaced : SpacedRun l ev)
    (hstep : epollStep l ev = some l') : Paced bw l' := by
  obtain ⟨hset, hwithin, hspace, hlog⟩ := h
  unfold epollStep at hstep
  split at hstep
  · -- the workers
    next rc s statNow sends hout _ =>
    split at hstep
    · next hfits =>
      cases hstep
      have hs : l.outcome.session = s := by rw [hout]; rfl
      have hset' : ClientWith bw (nwcConnectionStat s statNow).1 :=
        ⟨hs ▸ hset.client, (stat_sendBandwidth _ statNow).trans (hs ▸ hset.bandwidth), hset.fits⟩
      refine Paced.onSend ⟨hset, hwithin, hspace, hlog⟩ hset' (by rw [hs]; rfl) hfits .wait
        fun hcan b hb => hspaced l.clock ?_ b hb
      rw [LoopRun.burstAt, hs]
      exact if_pos hcan
    · cases hstep
  · -- `epoll_wait`
    split at hstep
    · cases hstep
      exact ⟨hset, hwithin, hspace, hlog⟩
    · cases hstep
  · cases hstep
    exact ⟨hset, hwithin, hspace, hlog⟩
  · cases hstep
    exact ⟨hset, hwithin, hspace, hlog⟩
  · -- a readable connection
    next rc s elapsed a hout _ =>
    have hs : l.outcome.session = s := by rw [hout]; rfl
    simp only [connStep] at hstep
    split at hstep
    · next o ho =>
      cases hstep
      split at ho
      · cases ho
        obtain ⟨hmode, hsends⟩ := onRecv_client (s := s) (hs ▸ hset.client) a
        obtain ⟨-, -, -, hbw⟩ := (onRecv_processed s a).counters
        refine ⟨⟨hmode, hbw.trans (hs ▸ hset.bandwidth), hset.fits⟩, hwithin, hspace, ?_⟩
        show _ = (nwcConnectionOnRecv s a).session.sock.sends.map _
        rw [hsends, ← hs]
        exact hlog
      · cases ho
    · cases hstep
  · -- a writable one
    next rc s elapsed soError sends hout _ =>
    have hs : l.outcome.session = s := by rw [hout]; rfl
    have hset' : ClientWith bw { s with io := (nwcTcpHandleOutput s.io soError).1 } :=
      ⟨hs ▸ hset.client, hs ▸ hset.bandwidth, hset.fits⟩
    dsimp only at hstep
    split at hstep
    · next hcall =>
      split at hstep
      · next hfits =>
        cases hstep
        refine Paced.onSend ⟨hset, hwithin, hspace, hlog⟩ hset' (by rw [hs]) hfits .events
          fun hcan b hb => hspaced _ ?_ b hb
        rw [LoopRun.burstAt, hs]
        exact if_pos ⟨hcall, hcan⟩
      · cases hstep
    · cases hstep
      exact ⟨hset', hwithin, hspace, hs ▸ hlog⟩
  · cases hstep
    exact ⟨hset, hwithin, hspace, hlog⟩
  · cases hstep

/-- The share of `SCHEDULE_TIMER` is far from the end of the 32 bits. -/
theorem init_clientWith (bandwidth : Int) (recvBuff : RecvBuffer) (stale : UInt32)
    (io : NwcTcpHandler) :
    ClientWith (nwcConnectionInit .client bandwidth recvBuff stale).qos.sendBandwidth
      (Session.opened (nwcConnectionInit .client bandwidth recvBuff stale) io) where
  client := rfl
  bandwidth := rfl
  fits := by
    have hu : u32 bandwidth < 4294967296 := by
      unfold u32
      omega
    show (UInt32.ofNat
        (((if u32 bandwidth = 0 then 125000 else u32 bandwidth / 8) + 19) / 20)).toNat
      + 1316 < 4294967296
    rw [UInt32.toNat_ofNat']
    split
    · omega
    · omega

/--
**When the client keeps to its bandwidth.**

In a run of the loop in which the runs of `on_send` that may send are `SCHEDULE_TIMER` apart, a
window of `T` milliseconds sees at most `(T / 50 + 1) * (send_bandwidth + 1315)` of the bytes sent.
-/
theorem bandwidth_of_spaced (bandwidth : Int) (recvBuff : RecvBuffer) (stale : UInt32)
    (io : NwcTcpHandler) (clock : Nat) (events : List LoopEvent) (l : LoopRun)
    (hrun : replay epollStep (.start bandwidth recvBuff stale io clock) events = some l)
    (hspaced : Along epollStep (.start bandwidth recvBuff stale io clock) events SpacedRun) :
    (l.bursts.flatMap fun b => b.amounts.map Prod.snd)
        = l.outcome.session.sock.sends.map (fun r => r.rc.toNat) ∧
      ∀ t T, amountIn t (millis T) l.bursts ≤ (T / SCHEDULE_TIMER + 1) *
        ((nwcConnectionInit .client bandwidth recvBuff stale).qos.sendBandwidth.toNat + 1315) := by
  have hstart : Paced (nwcConnectionInit .client bandwidth recvBuff stale).qos.sendBandwidth
      (.start bandwidth recvBuff stale io clock) :=
    ⟨init_clientWith bandwidth recvBuff stale io, fun b hb => absurd hb List.not_mem_nil,
      List.Pairwise.nil, rfl⟩
  have hpaced := along_invariant (fun _ _ _ h hg hs => h.step hg hs) hstart hrun hspaced
  refine ⟨hpaced.log, fun t T => ?_⟩
  have hle := amountIn_le (by decide) l.bursts t (millis T) hpaced.within hpaced.spaced
  have hdiv : millis T / millis SCHEDULE_TIMER = T / SCHEDULE_TIMER :=
    Nat.mul_div_mul_right _ _ (by decide)
  rwa [hdiv] at hle

/-- A client with default bandwidth, which is 6250 bytes a run, on an established handler. -/
def LoopRun.sample : LoopRun :=
  .start 0 RecvBuffer.zero 0 { nwcTcpHandlerInit true with state := .established } 0

/-- Five packages taken whole, all in the first millisecond; then the budget is spent. -/
def fullRun : LoopEvent :=
  .dispatch 1
    (List.replicate 6 { elapsed := 0, env := { SendEnv.sample (.done 1316) with now := 1 } })

/-- Two runs with a timeout in between. -/
theorem timeout_inBandwidth : ∃ l,
    replay epollStep .sample [fullRun, .timeout 50000000, .sweep, fullRun] = some l ∧
      ∀ t T, amountIn t (millis T) l.bursts ≤ (T / SCHEDULE_TIMER + 1) * (6250 + 1315) := by
  obtain ⟨l, hl⟩ := Option.isSome_iff_exists.mp
    (show (replay epollStep .sample [fullRun, .timeout 50000000, .sweep, fullRun]).isSome by
      decide +kernel)
  have hspaced : Along epollStep .sample [fullRun, .timeout 50000000, .sweep, fullRun]
      SpacedRun := by decide +kernel
  exact ⟨l, hl, (bandwidth_of_spaced 0 RecvBuffer.zero 0
    { nwcTcpHandlerInit true with state := .established } 0 _ l hl hspaced).2⟩

/-- The ack of the first package, 20 bytes that can be read at once. -/
def earlyAck : List LoopEvent :=
  [.ready 0,
    .handleInput 0 (Arrival.sample (({ timestamp := 1, ackTimestamp := 1, recvDelay := 0
                                       length := 4 } : NwcQosHdr).bytes ++ pongData)),
    .sweep]

/-- It takes its package out, and makes the worker run again in the same millisecond. -/
theorem earlyAck_exceeds : ∃ l,
    replay epollStep .sample (fullRun :: earlyAck ++ [fullRun]) = some l ∧
      l.outcome.session.conn.qos.sentQueue.length = 9 ∧
      (0 / SCHEDULE_TIMER + 1) * (6250 + 1315) < amountIn 0 (millis 0) l.bursts := by
  obtain ⟨l, hl⟩ := Option.isSome_iff_exists.mp
    (show (replay epollStep .sample (fullRun :: earlyAck ++ [fullRun])).isSome by
      decide +kernel)
  have hview : (replay epollStep .sample (fullRun :: earlyAck ++ [fullRun])).map
      (fun l => (l.outcome.session.conn.qos.sentQueue.length, amountIn 0 (millis 0) l.bursts))
        = some (9, 13160) := by decide +kernel
  rw [hl] at hview
  obtain ⟨hqueue, hamount⟩ := Prod.mk.inj (Option.some.inj hview)
  refine ⟨l, hl, hqueue, ?_⟩
  rw [hamount]
  decide

end Nwchecker
