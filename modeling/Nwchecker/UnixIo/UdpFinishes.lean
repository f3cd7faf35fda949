import Nwchecker.UnixIo.UdpWaits

/-!
# The clients that can come to their count

As long as a client is not forgotten, it is never too late: the server answers what is in flight,
and pass by pass the client gets to the end of its count.
-/

namespace Nwchecker.UnixIo

open Machine Postal

namespace NwcUdpClient

variable {na : UdpArgs} {c : NwcUdpClient} {d : UdpDatagram} {p : Nat}

/-- Behind the pass `p`, and not by a `break`. -/
structure Between (na : UdpArgs) (p : Nat) (c : NwcUdpClient) : Prop where
  counting : c.Counting na
  unbroken : c.ended ≠ some .broken
  idle : c.receiving = false
  passes : c.passes = p

theorem pace_ended (c : NwcUdpClient) : c.pace.ended = c.ended := by
  unfold pace
  dsimp only
  split
  · rfl
  · rfl

theorem countDown_unbroken (hended : c.ended = none) : c.countDown.ended ≠ some .broken := by
  unfold countDown
  split
  · rw [pace_ended, hended]
    intro h
    cases h
  · dsimp only
    split
    · intro h
      cases h
    · rw [pace_ended]
      show c.ended ≠ _
      rw [hended]
      intro h
      cases h

theorem sentPing_between (h : c.Counting na) (hended : c.ended = none) (hidle : c.receiving = false)
    (hmode : c.echoMode = 2) : Between na (c.passes + 1) c.sentPing := by
  have hsent : c.sentPing = { c with pings := c.pings + 1 }.countDown :=
    if_neg (not_ne_iff.mpr hmode)
  have hsame := countDown_same { c with pings := c.pings + 1 }
  refine ⟨h.sentPing hended hidle, ?_, ?_, ?_⟩
  · rw [hsent]
    exact countDown_unbroken hended
  · rw [hsent, hsame.receiving]
    exact hidle
  · rw [hsent, hsame.passes, passes, passes, if_pos hmode, if_pos hmode]

theorem recvPong_between (h : c.Counting na) (hturn : c.InTurn) (htakes : c.Takes d)
    (hdata : d.data = pong) : Between na (c.passes + 1) (c.recvPong d) := by
  have hsome : d.data.take 7 ≠ [] := by
    rw [hdata]
    decide
  have hrecv : c.recvPong d = (c.received d).countDown := if_neg hsome
  have hpassed := countDown_same (c.received d)
  refine ⟨h.recvPong hturn htakes, ?_, ?_, ?_⟩
  · rw [hrecv]
    exact countDown_unbroken htakes.1
  · rw [hrecv, hpassed.receiving]
    rfl
  · have hmode : c.echoMode ≠ 2 := hturn.echoes htakes.2.1
    have hechoes : (c.received d).echoMode ≠ 2 := hmode
    rw [hrecv, hpassed.passes, passes, passes, if_neg hechoes, if_neg hmode]
    rfl

end NwcUdpClient

namespace UdpPing

open NwcUdpClient (Between)

variable {s t : UdpPing} {i k : Nat} {c : NwcUdpClient} {d : UdpDatagram} {na : UdpArgs} {p : Nat}
  {server : SockAddr} {mode : Int32} {args : List (UdpArgs × SockAddr × List UInt8)}
  {es : List Event}

/-- The loop of the client `i` can still be ended by the count. -/
def CanFinish (s : UdpPing) (i : Nat) : Prop :=
  ∃ es t c, .fails i ∉ es ∧ replay step s es = some t ∧ t.clients[i]? = some c ∧
    c.ended = some .counted

/-- The client `i` can come behind the pass `p`. -/
def CanPass (na : UdpArgs) (s : UdpPing) (i p : Nat) : Prop :=
  ∃ es t c, .fails i ∉ es ∧ replay step s es = some t ∧ t.clients[i]? = some c ∧ Between na p c

/-- What it waits for is on the way. -/
theorem pong_next (h : s.Going mode) (hmode : mode ≠ 2 ∧ mode ≠ 3) (hi : s.clients[i]? = some c)
    (hc : c.Counting na) (hended : c.ended = none) (hreceiving : c.receiving = true)
    (hd : d ∈ s.net.flying) (hof : of c.addr d = true) : s.CanPass na i (c.passes + 1) := by
  obtain ⟨es, t, x, hes, hrun, htakes, hdata, ht⟩ :=
    flying_wakes h hmode hi hended hreceiving hd hof
  have hturn := (h.sound.clients i c hi).inTurn
  exact ⟨es, t, _, hes, hrun, ht, NwcUdpClient.recvPong_between hc hturn htakes hdata⟩

/-- It sends a ping, and nothing happens to that. -/
theorem ping_next (h : s.Going mode) (hmode : mode ≠ 2 ∧ mode ≠ 3) (hi : s.clients[i]? = some c)
    (hc : c.Counting na) (hended : c.ended = none) (hidle : c.receiving = false) :
    s.CanPass na i (c.passes + 1) := by
  have hping : s.step (.ping i true) =
      some { s.setClient i c.sentPing with net := s.net.send c.ping } := by
    simp only [step]
    rw [hi]
    exact if_pos ⟨hended, hidle⟩
  have hset : (s.clients.set i c.sentPing)[i]? = some c.sentPing :=
    List.getElem?_set_self (List.getElem?_eq_some_iff.mp hi).1
  by_cases hecho : c.echoMode = 2
  · refine ⟨[.ping i true], _, _, ?_, replay_cons.mpr ⟨_, hping, rfl⟩, hset, ?_⟩
    · simp
    · exact NwcUdpClient.sentPing_between hc hended hidle hecho
  · have hsent : c.sentPing = { c with pings := c.pings + 1, receiving := true } := if_pos hecho
    have hcounting := hc.sentPing hended hidle
    have hpasses : c.sentPing.passes = c.passes := by
      rw [hsent, NwcUdpClient.passes, NwcUdpClient.passes, if_neg hecho, if_neg hecho]
    have hrunning : c.sentPing.ended = none := by
      rw [hsent]
      exact hended
    have hreceiving : c.sentPing.receiving = true := by rw [hsent]
    have hflying : c.ping ∈ s.net.flying ++ [c.ping] := List.mem_concat_self
    have hof : of c.sentPing.addr c.ping = true := by
      rw [hsent]
      exact decide_eq_true (Or.inl rfl)
    obtain ⟨es, t, c', hes, hrun, ht, hbetween⟩ :=
      pong_next (h.step hping) hmode hset hcounting hrunning hreceiving hflying hof
    rw [hpasses] at hbetween
    refine ⟨.ping i true :: es, t, c', ?_, replay_cons.mpr ⟨_, hping, hrun⟩, ht, hbetween⟩
    simpa using hes

theorem CanFinish.after (h : t.CanFinish i) (hes : .fails i ∉ es)
    (hrun : replay UdpPing.step s es = some t) : s.CanFinish i := by
  obtain ⟨fs, u, c, hfs, hon, hu, hended⟩ := h
  refine ⟨es ++ fs, u, c, ?_, replay_append.mpr ⟨t, hrun, hon⟩, hu, hended⟩
  exact fun hmem => (List.mem_append.mp hmem).elim hes hfs

/-- Pass by pass. The induction is on the passes that are left. -/
theorem Going.canFinish (h : s.Going mode) (hmode : mode ≠ 2 ∧ mode ≠ 3)
    (hi : s.clients[i]? = some c) (hb : Between na p c) : s.CanFinish i := by
  obtain ⟨n, hn⟩ : ∃ n : Nat, (na.messages - p).toNat = n := ⟨_, rfl⟩
  induction n generalizing s c p with
  | zero =>
    cases hb.counting with
    | paced hpaced =>
      have hleft := hpaced.left
      have hmore := hpaced.more
      rw [hb.passes] at hleft
      omega
    | done hdone hidle => exact ⟨[], s, c, List.not_mem_nil, rfl, hi, hdone.ended⟩
    | broken hended hpings => exact absurd hended hb.unbroken
  | succ n ih =>
    cases hb.counting with
    | paced hpaced =>
      obtain ⟨es, t, c', hes, hrun, ht, hnext⟩ :=
        ping_next h hmode hi hb.counting hpaced.running hb.idle
      rw [hb.passes] at hnext
      exact (ih (h.run hrun) ht hnext (by omega)).after hes hrun
    | done hdone hidle => exact ⟨[], s, c, List.not_mem_nil, rfl, hi, hdone.ended⟩
    | broken hended hpings => exact absurd hended hb.unbroken

/--
**Who can finish.**

A client that counts its pings, and has not been left by a `break`, can come to the end of its count
at every moment, unless it is in `recvfrom` and one more of its datagrams was lost than copied.
-/
theorem finishes_iff (haddrs : OwnAddresses server args) (hmode : mode ≠ 2 ∧ mode ≠ 3)
    (hrun : replay step (start server mode args) es = some s) {a : UdpArgs × SockAddr × List UInt8}
    (ha : args[i]? = some a) (hi : s.clients[i]? = some c) (hcount : 0 < a.1.count.toInt)
    (hfit : LoadClient.Countable a.1.toLoadArgs) (hunbroken : c.ended ≠ some .broken) :
    s.CanFinish i ↔ ¬(c.receiving = true ∧
      s.net.lost.countP (of c.addr) = s.net.extra.countP (of c.addr) + 1) := by
  have hgoing := (start_going haddrs mode).run hrun
  have hok := hgoing.sound.clients i c hi
  have hcounting := (run_counts haddrs hrun ha hcount hfit).2 c hi
  have hrunning : c.receiving = true → c.ended = none := by
    intro hreceiving
    cases hcounting with
    | paced h => exact h.running
    | done h hidle =>
      rw [hreceiving] at hidle
      cases hidle
    | broken hended hpings => exact absurd hended hunbroken
  constructor
  · rintro ⟨fs, t, c', hfs, hon, ht, hcounted⟩ ⟨hreceiving, hlost⟩
    have hquiet := (hok.owes_one hreceiving).flying_iff.mpr hlost
    have hstays := (hgoing.forgotten hmode.2 hi hreceiving hquiet).hangs fs t hfs hon
    rw [ht, hi] at hstays
    cases hstays
    rw [hrunning hreceiving] at hcounted
    cases hcounted
  · intro hnot
    cases hreceiving : c.receiving with
    | false => exact hgoing.canFinish hmode hi ⟨hcounting, hunbroken, hreceiving, rfl⟩
    | true =>
      -- with nothing in flight one more would be lost
      by_contra hstuck
      refine hnot ⟨hreceiving, (hok.owes_one hreceiving).flying_iff.mp fun d hd => ?_⟩
      cases hof : of c.addr d with
      | false => rfl
      | true =>
        obtain ⟨fs, t, c', hfs, hon, ht, hnext⟩ :=
          pong_next hgoing hmode hi hcounting (hrunning hreceiving) hreceiving hd hof
        exact absurd (((hgoing.run hon).canFinish hmode ht hnext).after hfs hon) hstuck

/-- A copy makes up for what is lost. -/
theorem copiedPing_finishes :
    ∃ s c, replay step (start { port := 9, addr := 1 } 0 twoPings)
        [.ping 0 true, .copy 0, .lose 0] = some s ∧
      s.clients[0]? = some c ∧ s.net.lost.countP (of c.addr) = 1 ∧ s.CanFinish 0 := by
  have haddrs : OwnAddresses { port := 9, addr := 1 } twoPings := ⟨by decide, by decide⟩
  have hmode : (0 : Int32) ≠ 2 ∧ (0 : Int32) ≠ 3 := by decide
  obtain ⟨s, c, hrun, hi, hended, hlost, hextra⟩ :
      ∃ s c, replay step (start { port := 9, addr := 1 } 0 twoPings)
          [.ping 0 true, .copy 0, .lose 0] = some s ∧
        s.clients[0]? = some c ∧ c.ended = none ∧ s.net.lost.countP (of c.addr) = 1 ∧
        s.net.extra.countP (of c.addr) = 1 :=
    ⟨_, _, rfl, rfl, rfl, rfl, rfl⟩
  have hunbroken : c.ended ≠ some .broken := by
    rw [hended]
    intro h
    cases h
  refine ⟨s, c, hrun, hi, hlost, ?_⟩
  refine (finishes_iff haddrs hmode hrun rfl hi (by decide) (by decide) hunbroken).mpr fun h => ?_
  omega

end UdpPing

end Nwchecker.UnixIo
