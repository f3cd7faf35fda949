import Nwchecker.UnixIo.UdpPing

/-!
# Pings that stay without a pong

`nwc_udp_client` has no timeout. A client in `recvfrom` goes on only with a pong, and it is the
balance of its datagrams that says whether one can still come.

When all goes well, it is the count of the passes that ends it.
-/

namespace Nwchecker.UnixIo

open Machine Postal

namespace UdpPing

variable {s t : UdpPing} {i k : Nat} {c : NwcUdpClient} {d : UdpDatagram} {e : Event}
  {server : SockAddr} {mode : Int32} {args : List (UdpArgs × SockAddr × List UInt8)}
  {es : List Event}

theorem step_server (hstep : s.step e = some t) :
    t.server.addr = s.server.addr ∧ t.server.echoMode = s.server.echoMode := by
  cases moves_of_step hstep with
  | ping hi hended hidle => exact ⟨rfl, rfl⟩
  | pingFails hi hended hidle => exact ⟨rfl, rfl⟩
  | @serve k d sends hk hmode hdst =>
    obtain ⟨haddr, hsame, -⟩ :=
      NwcUdpServer.answer_cases { s.server with clientAddr := d.src } sends
    exact ⟨haddr, hsame⟩
  | volley sends hmode =>
    obtain ⟨haddr, hsame, -⟩ := s.server.answer_cases sends
    exact ⟨haddr, hsame⟩
  | pong hk hi htakes => exact ⟨rfl, rfl⟩
  | fails hi hended hreceiving => exact ⟨rfl, rfl⟩
  | lose hk => exact ⟨rfl, rfl⟩
  | copy hk => exact ⟨rfl, rfl⟩

/-- What comes from the server says `pong`. -/
def PongsOnly (s : UdpPing) : Prop :=
  ∀ d ∈ s.net.flying, d.src = s.server.addr → d.data = UnixIo.pong

theorem PongsOnly.step (h : s.PongsOnly) (hsound : s.Sound) (hstep : s.step e = some t) :
    t.PongsOnly := by
  have hflying : ∀ d ∈ t.net.flying, d.src = s.server.addr → d.data = UnixIo.pong := by
    cases moves_of_step hstep with
    | @ping j c hj hended hidle =>
      exact Network.forall_send h fun hsrc => absurd hsrc (hsound.clients j c hj).apart
    | pingFails hj hended hidle => exact h
    | @serve k d sends hk hmode hdst =>
      obtain ⟨-, -, hcases⟩ :=
        NwcUdpServer.answer_cases { s.server with clientAddr := d.src } sends
      unfold served
      dsimp only
      rcases hcases with hnone | hsome
      · rw [hnone]
        exact Network.forall_lose h k d
      · rw [hsome]
        exact Network.forall_send (Network.forall_took h k) fun _ => rfl
    | volley sends hmode =>
      obtain ⟨-, -, hcases⟩ := s.server.answer_cases sends
      rcases hcases with hnone | hsome
      · rw [hnone]
        exact h
      · rw [hsome]
        exact Network.forall_spawn h fun _ => rfl
    | pong hk hj htakes => exact Network.forall_took h _
    | fails hj hended hreceiving => exact h
    | lose hk => exact Network.forall_lose h _ _
    | copy hk => exact Network.forall_spawn h (h _ (List.mem_of_getElem? hk))
  unfold PongsOnly
  rw [(step_server hstep).1]
  exact hflying

/-- What every run keeps. -/
structure Going (mode : Int32) (s : UdpPing) : Prop where
  sound : s.Sound
  pongs : s.PongsOnly
  mode : s.server.echoMode = mode

theorem Going.step (h : s.Going mode) (hstep : s.step e = some t) : t.Going mode where
  sound := h.sound.step hstep
  pongs := h.pongs.step h.sound hstep
  mode := (step_server hstep).2.trans h.mode

theorem Going.run (h : s.Going mode) (hrun : replay UdpPing.step s es = some t) : t.Going mode :=
  replay_invariant (I := fun _ => True) (fun _ _ _ _ hs hstep => hs.step hstep)
    (fun _ _ => trivial) h hrun

theorem start_going (haddrs : OwnAddresses server args) (mode : Int32) :
    (start server mode args).Going mode where
  sound := start_sound haddrs mode
  pongs := fun _ hd => absurd hd List.not_mem_nil
  mode := rfl

/-! ## A client for which nothing is on the way -/

/-- The client `i`, which is `c`, is in `recvfrom`, and no datagram is its ping or its pong. -/
structure Forgotten (s : UdpPing) (i : Nat) (c : NwcUdpClient) : Prop where
  sound : s.Sound
  mode : s.server.echoMode ≠ 3
  here : s.clients[i]? = some c
  receiving : c.receiving = true
  quiet : ∀ d ∈ s.net.flying, of c.addr d = false

theorem of_eq_false {a : SockAddr} : of a d = false ↔ d.src ≠ a ∧ d.dst ≠ a := by
  rw [of, decide_eq_false_iff_not, not_or]

/-- A client that is not in `recvfrom` is another one. -/
theorem Forgotten.ne_of_idle (h : s.Forgotten i c) {j : Nat} {c' : NwcUdpClient}
    (hj : s.clients[j]? = some c') (hidle : c'.receiving = false) : j ≠ i := by
  rintro rfl
  rw [h.here] at hj
  cases hj
  rw [h.receiving] at hidle
  cases hidle

/-- The others may do what they want: the client stays where it is. -/
theorem Forgotten.stays (h : s.Forgotten i c) (hstep : s.step e = some t) (he : e ≠ .fails i) :
    t.clients[i]? = some c := by
  have hother : ∀ (j : Nat) c', j ≠ i → (s.clients.set j c')[i]? = some c := by
    intro j c' hj
    rw [List.getElem?_set_ne hj]
    exact h.here
  cases moves_of_step hstep with
  | ping hj hended hidle => exact hother _ _ (h.ne_of_idle hj hidle)
  | pingFails hj hended hidle => exact hother _ _ (h.ne_of_idle hj hidle)
  | serve sends hk hmode hdst => exact h.here
  | volley sends hmode => exact h.here
  | @pong k j d c' hk hj htakes =>
    refine hother _ _ fun heq => ?_
    subst heq
    rw [h.here] at hj
    cases hj
    exact (of_eq_false.mp (h.quiet d (List.mem_of_getElem? hk))).2 htakes.2.2.1
  | fails hj hended hreceiving => exact hother _ _ fun heq => he (congrArg _ heq)
  | lose hk => exact h.here
  | copy hk => exact h.here

/-- Nobody but the client itself would send a ping for it, and without a ping there is no pong. -/
theorem Forgotten.staysQuiet (h : s.Forgotten i c) (hstep : s.step e = some t) :
    ∀ d ∈ t.net.flying, of c.addr d = false := by
  have hapart := (h.sound.clients i c h.here).apart
  cases moves_of_step hstep with
  | @ping j c' hj hended hidle =>
    refine Network.forall_send h.quiet (of_eq_false.mpr ⟨fun hsrc => ?_, fun hdst => ?_⟩)
    · exact h.ne_of_idle hj hidle (h.sound.distinct _ _ _ _ hj h.here hsrc)
    · exact hapart (hdst.symm.trans (h.sound.clients j c' hj).dest)
  | pingFails hj hended hidle => exact h.quiet
  | @serve k d sends hk hmode hdst =>
    obtain ⟨haddr, -, hcases⟩ :=
      NwcUdpServer.answer_cases { s.server with clientAddr := d.src } sends
    unfold served
    dsimp only
    rcases hcases with hnone | hsome
    · rw [hnone]
      exact Network.forall_lose h.quiet k d
    · rw [hsome]
      have hping := of_eq_false.mp (h.quiet d (List.mem_of_getElem? hk))
      exact Network.forall_send (Network.forall_took h.quiet k)
        (of_eq_false.mpr ⟨Ne.symm hapart, hping.1⟩)
  | volley sends hmode => exact absurd hmode h.mode
  | pong hk hj htakes => exact Network.forall_took h.quiet _
  | fails hj hended hreceiving => exact h.quiet
  | lose hk => exact Network.forall_lose h.quiet _ _
  | copy hk => exact Network.forall_spawn h.quiet (h.quiet _ (List.mem_of_getElem? hk))

theorem Forgotten.step (h : s.Forgotten i c) (hstep : s.step e = some t) (he : e ≠ .fails i) :
    t.Forgotten i c where
  sound := h.sound.step hstep
  mode := (step_server hstep).2.trans_ne h.mode
  here := h.stays hstep he
  receiving := h.receiving
  quiet := h.staysQuiet hstep

/-! ## A client for which something is on the way -/

/-- Its pong is in flight. -/
theorem pong_wakes (h : s.Sound) (hi : s.clients[i]? = some c) (hended : c.ended = none)
    (hreceiving : c.receiving = true) (hk : s.net.flying[k]? = some d)
    (hsrc : d.src = s.server.addr) (hdst : d.dst = c.addr) :
    c.Takes d ∧ ∃ t, s.step (.pong k i) = some t ∧ t.clients[i]? = some (c.recvPong d) := by
  have hok := h.clients i c hi
  have htakes : c.Takes d := ⟨hended, hreceiving, hdst, fun _ => hsrc.trans hok.dest.symm⟩
  refine ⟨htakes, { s.setClient i (c.recvPong d) with net := s.net.took k }, ?_, ?_⟩
  · simp only [step]
    rw [hk, hi]
    exact if_pos htakes
  · exact List.getElem?_set_self (List.getElem?_eq_some_iff.mp hi).1

/-- Its ping or its pong is. The server answers the ping. -/
theorem flying_wakes (h : s.Going mode) (hmode : mode ≠ 2 ∧ mode ≠ 3)
    (hi : s.clients[i]? = some c) (hended : c.ended = none) (hreceiving : c.receiving = true)
    (hd : d ∈ s.net.flying) (hof : of c.addr d = true) :
    ∃ es t d, .fails i ∉ es ∧ replay step s es = some t ∧ c.Takes d ∧ d.data = UnixIo.pong ∧
      t.clients[i]? = some (c.recvPong d) := by
  have hok := h.sound.clients i c hi
  rw [← h.mode] at hmode
  obtain ⟨k, hk⟩ := List.getElem?_of_mem hd
  rcases h.sound.routed d hd with hdst | hsrc
  · have hsrc : d.src = c.addr := by
      rcases of_decide_eq_true hof with hsrc | hdst'
      · exact hsrc
      · exact absurd (hdst'.symm.trans hdst) hok.apart
    have hserve : s.step (.serve k true) = some (s.served k d true) := by
      simp only [step]
      rw [hk]
      exact if_pos ⟨hmode.2, hdst⟩
    have hanswer : ({ s.server with clientAddr := d.src } : NwcUdpServer).answer true =
        (some { src := s.server.addr, dst := d.src, data := UnixIo.pong },
          ({ s.server with clientAddr := d.src } : NwcUdpServer).register) :=
      if_pos hmode.1
    have hflying : (s.served k d true).net.flying[(s.net.flying.eraseIdx k).length]? =
        some { src := s.server.addr, dst := d.src, data := UnixIo.pong } := by
      unfold served
      dsimp only
      rw [hanswer]
      exact List.getElem?_concat_length
    obtain ⟨htakes, t, hpong, ht⟩ :=
      pong_wakes (h.step hserve).sound hi hended hreceiving hflying (step_server hserve).1.symm hsrc
    refine
      ⟨[.serve k true, .pong (s.net.flying.eraseIdx k).length i], t, _, ?_, ?_, htakes, rfl, ht⟩
    · simp
    · exact replay_cons.mpr ⟨_, hserve, replay_cons.mpr ⟨t, hpong, rfl⟩⟩
  · have hdst : d.dst = c.addr := by
      rcases of_decide_eq_true hof with hsrc' | hdst
      · exact absurd (hsrc'.symm.trans hsrc) hok.apart
      · exact hdst
    obtain ⟨htakes, t, hpong, ht⟩ := pong_wakes h.sound hi hended hreceiving hk hsrc hdst
    refine ⟨[.pong k i], t, d, ?_, replay_cons.mpr ⟨t, hpong, rfl⟩, htakes, h.pongs d hd hsrc, ht⟩
    simp

/-! ## The clients that wait forever -/

/-- Whatever happens, the client `i` stays as it is, unless `recvfrom` fails. -/
def Hangs (s : UdpPing) (i : Nat) : Prop :=
  ∀ es t, .fails i ∉ es → replay step s es = some t → t.clients[i]? = s.clients[i]?

theorem Forgotten.hangs (h : s.Forgotten i c) : s.Hangs i := by
  intro es t hes hrun
  have hend : t.Forgotten i c := by
    refine replay_invariant (P := fun t => t.Forgotten i c) (I := fun e => e ≠ .fails i)
      (fun _ _ _ he hs hstep => hs.step hstep he) (fun e he heq => hes ?_) h hrun
    rw [← heq]
    exact he
  rw [hend.here, h.here]

theorem Going.forgotten (h : s.Going mode) (hmode : mode ≠ 3) (hi : s.clients[i]? = some c)
    (hreceiving : c.receiving = true) (hquiet : ∀ d ∈ s.net.flying, of c.addr d = false) :
    s.Forgotten i c where
  sound := h.sound
  mode := h.mode.trans_ne hmode
  here := hi
  receiving := hreceiving
  quiet := hquiet

/-- In `recvfrom` there is one ping more than pongs. -/
theorem ClientOk.owes_one {net : Network UdpDatagram} (h : ClientOk server net c)
    (hreceiving : c.receiving = true) : Owes net (of c.addr) 1 := by
  have hpings := h.inTurn.waits (h.inTurn.echoes hreceiving)
  rw [if_pos hreceiving] at hpings
  have hone : (c.pings : Int) - c.pongs = 1 := by omega
  rw [← hone]
  exact h.owes

/--
**Who hangs.**

A client waits for one datagram. It waits forever exactly if one more of those between it and the
server was lost than was copied.
-/
theorem hangs_iff (haddrs : OwnAddresses server args) (hmode : mode ≠ 2 ∧ mode ≠ 3)
    (hrun : replay step (start server mode args) es = some s) (hi : s.clients[i]? = some c)
    (hended : c.ended = none) (hreceiving : c.receiving = true) :
    s.Hangs i ↔ s.net.lost.countP (of c.addr) = s.net.extra.countP (of c.addr) + 1 := by
  have hgoing := (start_going haddrs mode).run hrun
  have hok := hgoing.sound.clients i c hi
  rw [← (hok.owes_one hreceiving).flying_iff]
  constructor
  · intro hhangs d hd
    rw [← Bool.not_eq_true]
    intro hof
    obtain ⟨fs, t, p, hfs, hon, htakes, -, ht⟩ :=
      flying_wakes hgoing hmode hi hended hreceiving hd hof
    rw [hhangs fs t hfs hon, hi] at ht
    have hpongs := (NwcUdpClient.recvPong_spec hok.inTurn htakes).2.2.2.2
    rw [← Option.some.inj ht] at hpongs
    omega
  · intro hquiet
    exact (hgoing.forgotten hmode.2 hi hreceiving hquiet).hangs

/-- Two clients with two pings each. -/
def twoPings : List (UdpArgs × SockAddr × List UInt8) :=
  [1, 2].map fun port =>
    ({ count := 2, sentPkgs := 1, messageSize := 5, echoMode := 0, isUdpConnect := false },
      { port := port, addr := 1 }, [0x70, 0x69, 0x6E, 0x67, 0])

/-- The first one loses its ping. -/
def lostPing : List Event := [.ping 0 true, .ping 1 true, .lose 0, .serve 0 true, .pong 0 1]

theorem lostPing_hangs :
    ∃ s c, replay step (start { port := 9, addr := 1 } 0 twoPings) lostPing = some s ∧
      s.clients[0]? = some c ∧ s.Hangs 0 := by
  have haddrs : OwnAddresses { port := 9, addr := 1 } twoPings := ⟨by decide, by decide⟩
  have hmode : (0 : Int32) ≠ 2 ∧ (0 : Int32) ≠ 3 := by decide
  obtain ⟨s, c, hrun, hi, hended, hreceiving, hlost⟩ :
      ∃ s c, replay step (start { port := 9, addr := 1 } 0 twoPings) lostPing = some s ∧
        s.clients[0]? = some c ∧ c.ended = none ∧ c.receiving = true ∧
        s.net.lost.countP (of c.addr) = s.net.extra.countP (of c.addr) + 1 :=
    ⟨_, _, rfl, rfl, rfl, rfl, rfl⟩
  exact ⟨s, c, hrun, hi, (hangs_iff haddrs hmode hrun hi hended hreceiving).mpr hlost⟩

end UdpPing

/-! ## The clients that are done -/

namespace NwcUdpClient

open LoadClient (slotSendCount_pos Countable)

variable {na : UdpArgs} {c : NwcUdpClient} {d : UdpDatagram} {p : Nat}

/-- In front of `sendto` or in `recvfrom`, after `p` passes. -/
structure Paced (na : UdpArgs) (p : Nat) (c : NwcUdpClient) : Prop where
  finite : c.infinit = false
  slot : c.slotSendCount = na.slotSendCount
  running : c.ended = none
  left : c.loopCount.toInt + p = na.messages
  more : 0 < c.loopCount.toInt
  /-- The slots that are used up, and what is used of this one. -/
  slots : c.sleeps * na.slotSendCount.toInt + na.slotSendCount.toInt = p + c.curSlotSent.toInt
  inSlot : 0 < c.curSlotSent.toInt ∧ c.curSlotSent.toInt ≤ na.slotSendCount.toInt

/-- The count has ended it after `p` passes. -/
structure Done (na : UdpArgs) (p : Nat) (c : NwcUdpClient) : Prop where
  ended : c.ended = some .counted
  all : (p : Int) = na.messages
  /-- Between the slots, and not behind the last one. -/
  sleeps : (c.sleeps : Int) = na.count.toInt - 1

theorem toInt_pred {x : Int32} (h : 0 < x.toInt) : (x - 1).toInt = x.toInt - 1 := by
  have hlt := Int32.toInt_lt x
  rw [Int32.toInt_sub]
  show (x.toInt - 1).bmod (2 ^ 32) = _
  exact Int.bmod_eq_of_le (by omega) (by omega)

theorem start_paced (hcount : 0 < na.count.toInt) (hfit : Countable na.toLoadArgs)
    (addr server : SockAddr) (msg : List UInt8) : Paced na 0 (start na addr server msg) := by
  have hslot := slotSendCount_pos na.toLoadArgs
  have hmessages : 0 < na.messages := Int.mul_pos hcount hslot
  have hloop : (na.count * na.slotSendCount).toInt = na.messages := by
    have hlt : na.messages < 2147483648 := hfit
    rw [Int32.toInt_mul]
    show na.messages.bmod (2 ^ 32) = na.messages
    exact Int.bmod_eq_of_le (by omega) (by omega)
  refine
    { finite := decide_eq_false (Int32.not_le.mpr (Int32.lt_iff_toInt_lt.mpr hcount))
      slot := rfl
      running := rfl
      left := ?_
      more := ?_
      slots := ?_
      inSlot := ⟨hslot, Int.le_refl _⟩ }
  · show (na.count * na.slotSendCount).toInt + 0 = _
    rw [hloop, Int.add_zero]
  · show 0 < (na.count * na.slotSendCount).toInt
    rw [hloop]
    exact hmessages
  · show (0 : Int) * _ + na.slotSendCount.toInt = 0 + na.slotSendCount.toInt
    rw [Int.zero_mul]

/-- The last pass is the last one of its slot. -/
theorem Paced.last (h : Paced na p c) (hlast : c.loopCount.toInt = 1) :
    (c.sleeps : Int) = na.count.toInt - 1 := by
  obtain ⟨hpos, hle⟩ := h.inSlot
  have hleft := h.left
  have hslots := h.slots
  have hmessages : na.messages = na.count.toInt * na.slotSendCount.toInt := rfl
  -- what is left of the slot is a multiple of it
  have hrest : c.curSlotSent.toInt - 1 =
      (c.sleeps + 1 - na.count.toInt) * na.slotSendCount.toInt := by
    rw [Int.sub_mul, Int.add_mul, Int.one_mul]
    omega
  have hmod : (c.curSlotSent.toInt - 1) % na.slotSendCount.toInt = c.curSlotSent.toInt - 1 :=
    Int.emod_eq_of_lt (by omega) (by omega)
  rw [hrest, Int.mul_emod_left] at hmod
  rcases Int.mul_eq_zero.mp hmod.symm with hzero | hzero
  · omega
  · omega

/-- One pass more. -/
theorem Paced.countDown (h : Paced na p c) :
    Paced na (p + 1) c.countDown ∨ Done na (p + 1) c.countDown := by
  have hloop := toInt_pred h.more
  have hcur := toInt_pred h.inSlot.1
  have hleft := h.left
  have hmore := h.more
  have hslots := h.slots
  have hin := h.inSlot
  unfold NwcUdpClient.countDown
  rw [if_neg (Bool.eq_false_iff.mp h.finite)]
  dsimp only
  split
  · next hzero =>
    have hlast : c.loopCount.toInt = 1 := by
      have hnone : (c.loopCount - 1).toInt = 0 := congrArg Int32.toInt hzero
      omega
    exact Or.inr ⟨rfl, by omega, h.last hlast⟩
  · next hne =>
    have hstill : (c.loopCount - 1).toInt ≠ 0 := fun heq => hne (Int32.toInt_inj.mp heq)
    left
    unfold pace
    dsimp only
    split
    · next hused =>
      have hone : c.curSlotSent.toInt = 1 := by
        have hnone : (c.curSlotSent - 1).toInt = 0 := congrArg Int32.toInt hused
        omega
      have hslot : c.slotSendCount.toInt = na.slotSendCount.toInt := congrArg Int32.toInt h.slot
      refine ⟨h.finite, h.slot, h.running, ?_, ?_, ?_, ?_⟩
      · show (c.loopCount - 1).toInt + (p + 1 : Nat) = _
        omega
      · show 0 < (c.loopCount - 1).toInt
        omega
      · show (c.sleeps + 1 : Nat) * na.slotSendCount.toInt + _ =
          (p + 1 : Nat) + c.slotSendCount.toInt
        rw [hslot, Int.natCast_add, Int.add_mul, Int.natCast_one, Int.one_mul]
        omega
      · show 0 < c.slotSendCount.toInt ∧ c.slotSendCount.toInt ≤ _
        omega
    · next hunused =>
      have hrest : (c.curSlotSent - 1).toInt ≠ 0 := fun heq => hunused (Int32.toInt_inj.mp heq)
      refine ⟨h.finite, h.slot, h.running, ?_, ?_, ?_, ?_⟩
      · show (c.loopCount - 1).toInt + (p + 1 : Nat) = _
        omega
      · show 0 < (c.loopCount - 1).toInt
        omega
      · show c.sleeps * na.slotSendCount.toInt + _ = (p + 1 : Nat) + (c.curSlotSent - 1).toInt
        omega
      · show 0 < (c.curSlotSent - 1).toInt ∧ (c.curSlotSent - 1).toInt ≤ _
        omega

/-- The passes that are behind a client: in echo mode 2 it does not wait for pongs. -/
def passes (c : NwcUdpClient) : Nat := if c.echoMode = 2 then c.pings else c.pongs

/-- What a client with a count can be. -/
inductive Counting (na : UdpArgs) (c : NwcUdpClient) : Prop where
  | paced (h : Paced na c.passes c)
  | done (h : Done na c.passes c) (hidle : c.receiving = false)
  | broken (hended : c.ended = some .broken) (hpings : (c.pings : Int) ≤ na.messages)

theorem SamePings.passes {c' : NwcUdpClient} (h : SamePings c c') : c'.passes = c.passes := by
  unfold NwcUdpClient.passes
  rw [h.echoMode, h.pings, h.pongs]

/-- The end of a pass. -/
theorem Paced.passed (h : Paced na p c) (hpasses : c.passes = p + 1) (hidle : c.receiving = false) :
    Counting na c.countDown := by
  have hsame := countDown_same c
  have hnext : c.countDown.passes = p + 1 := hsame.passes.trans hpasses
  rcases h.countDown with hpaced | hdone
  · rw [← hnext] at hpaced
    exact .paced hpaced
  · rw [← hnext] at hdone
    exact .done hdone (hsame.receiving.trans hidle)

theorem Paced.pings_le (h : Paced na c.passes c) (hturn : c.InTurn) :
    (c.pings : Int) ≤ na.messages := by
  have hleft := h.left
  have hmore := h.more
  unfold passes at hleft
  split at hleft
  · omega
  · next hmode =>
    have hpings := hturn.waits hmode
    split at hpings
    · omega
    · omega

theorem Counting.running (h : Counting na c) (hended : c.ended = none) : Paced na c.passes c := by
  cases h with
  | paced h => exact h
  | done h hidle =>
    have hsome := h.ended
    rw [hended] at hsome
    cases hsome
  | broken hsome hpings =>
    rw [hended] at hsome
    cases hsome

theorem Counting.leave (h : Counting na c) (hturn : c.InTurn) (hended : c.ended = none) :
    Counting na c.leave :=
  .broken rfl ((h.running hended).pings_le hturn)

theorem Counting.sentPing (h : Counting na c) (hended : c.ended = none)
    (hidle : c.receiving = false) : Counting na c.sentPing := by
  obtain ⟨hfinite, hslot, hrunning, hleft, hmore, hslots, hin⟩ := h.running hended
  unfold NwcUdpClient.sentPing
  dsimp only
  by_cases hmode : c.echoMode = 2
  · rw [if_neg (not_ne_iff.mpr hmode)]
    have hsent : Paced na c.passes { c with pings := c.pings + 1 } :=
      ⟨hfinite, hslot, hrunning, hleft, hmore, hslots, hin⟩
    refine hsent.passed ?_ hidle
    rw [passes, passes, if_pos hmode, if_pos hmode]
  · rw [if_pos hmode]
    refine .paced ?_
    have hpasses : ({ c with pings := c.pings + 1, receiving := true } : NwcUdpClient).passes =
        c.passes := by
      rw [passes, passes, if_neg hmode, if_neg hmode]
    rw [hpasses]
    exact ⟨hfinite, hslot, hrunning, hleft, hmore, hslots, hin⟩

theorem Counting.recvPong (h : Counting na c) (hturn : c.InTurn) (htakes : c.Takes d) :
    Counting na (c.recvPong d) := by
  have hpaced := h.running htakes.1
  have hmode : c.echoMode ≠ 2 := hturn.echoes htakes.2.1
  unfold NwcUdpClient.recvPong
  split
  · exact .broken rfl (hpaced.pings_le hturn)
  · obtain ⟨hfinite, hslot, hrunning, hleft, hmore, hslots, hin⟩ := hpaced
    have hreceived : Paced na c.passes (c.received d) :=
      ⟨hfinite, hslot, hrunning, hleft, hmore, hslots, hin⟩
    have hechoes : (c.received d).echoMode ≠ 2 := hmode
    refine hreceived.passed ?_ rfl
    rw [passes, passes, if_neg hechoes, if_neg hmode]
    rfl

end NwcUdpClient

namespace UdpPing

variable {s t : UdpPing} {i j : Nat} {c c' : NwcUdpClient} {server : SockAddr} {mode : Int32}
  {args : List (UdpArgs × SockAddr × List UInt8)} {es : List Event} {na : UdpArgs}

/-- The client `i`, if there is one, counts down. -/
def CountsAt (na : UdpArgs) (i : Nat) (s : UdpPing) : Prop :=
  s.Sound ∧ ∀ c, s.clients[i]? = some c → c.Counting na

/-- A client moves, this one or another. -/
theorem CountsAt.move (h : s.CountsAt na i) (hj : s.clients[j]? = some c)
    (hself : c.Counting na → c'.Counting na) :
    ∀ x, (s.clients.set j c')[i]? = some x → x.Counting na := by
  intro x hx
  rw [List.getElem?_set] at hx
  split at hx
  · next hij =>
    subst hij
    split at hx
    · cases hx
      exact hself (h.2 c hj)
    · cases hx
  · exact h.2 x hx

theorem CountsAt.step (h : s.CountsAt na i) {e : Event} (hstep : s.step e = some t) :
    t.CountsAt na i := by
  refine ⟨h.1.step hstep, ?_⟩
  cases moves_of_step hstep with
  | ping hj hended hidle => exact h.move hj fun hc => hc.sentPing hended hidle
  | pingFails hj hended hidle =>
    exact h.move hj fun hc => hc.leave (h.1.clients _ _ hj).inTurn hended
  | serve sends hk hmode hdst => exact h.2
  | volley sends hmode => exact h.2
  | pong hk hj htakes => exact h.move hj fun hc => hc.recvPong (h.1.clients _ _ hj).inTurn htakes
  | fails hj hended hreceiving =>
    exact h.move hj fun hc => hc.leave (h.1.clients _ _ hj).inTurn hended
  | lose hk => exact h.2
  | copy hk => exact h.2

theorem run_counts (haddrs : OwnAddresses server args)
    (hrun : replay step (start server mode args) es = some s) {a : UdpArgs × SockAddr × List UInt8}
    (ha : args[i]? = some a) (hcount : 0 < a.1.count.toInt)
    (hfit : LoadClient.Countable a.1.toLoadArgs) : s.CountsAt a.1 i := by
  have hstart : (start server mode args).CountsAt a.1 i := by
    refine ⟨start_sound haddrs mode, fun x hx => ?_⟩
    rw [start, List.getElem?_map, ha] at hx
    cases hx
    refine .paced ?_
    have hzero : (NwcUdpClient.start a.1 a.2.1 server a.2.2).passes = 0 := ite_self 0
    rw [hzero]
    exact NwcUdpClient.start_paced hcount hfit _ _ _
  exact replay_invariant (I := fun _ => True) (fun _ _ _ _ hs hstep => hs.step hstep)
    (fun _ _ => trivial) hstart hrun

/--
**Counting is exact.**

A client that has been asked for a number of pings sends no more. If it is the count that ends it,
it has sent as many, has got a pong for each one that is to be echoed, and has slept between the
slots.
-/
theorem counted_exact (haddrs : OwnAddresses server args)
    (hrun : replay step (start server mode args) es = some s) {a : UdpArgs × SockAddr × List UInt8}
    (ha : args[i]? = some a) (hi : s.clients[i]? = some c) (hcount : 0 < a.1.count.toInt)
    (hfit : LoadClient.Countable a.1.toLoadArgs) :
    (c.pings : Int) ≤ a.1.messages ∧
      (c.ended = some .counted →
        (c.pings : Int) = a.1.messages ∧ (c.echoMode ≠ 2 → c.pongs = c.pings) ∧
          (c.sleeps : Int) = a.1.count.toInt - 1) := by
  have hend := run_counts haddrs hrun ha hcount hfit
  have hturn := (hend.1.clients i c hi).inTurn
  cases hend.2 c hi with
  | paced h =>
    refine ⟨h.pings_le hturn, fun hended => ?_⟩
    rw [h.running] at hended
    cases hended
  | done h hidle =>
    have hall := h.all
    unfold NwcUdpClient.passes at hall
    by_cases hmode : c.echoMode = 2
    · rw [if_pos hmode] at hall
      exact ⟨by omega, fun _ => ⟨hall, fun hne => absurd hmode hne, h.sleeps⟩⟩
    · rw [if_neg hmode] at hall
      have hpings := hturn.waits hmode
      rw [hidle] at hpings
      have hsame : c.pongs = c.pings := hpings.symm
      rw [hsame] at hall
      exact ⟨by omega, fun _ => ⟨hall, fun _ => hsame, h.sleeps⟩⟩
  | broken hended hpings =>
    refine ⟨hpings, fun hcounted => ?_⟩
    rw [hended] at hcounted
    cases hcounted

/-- The second one gets both of its pongs. -/
theorem lostPing_counted :
    ∃ s c, replay step (start { port := 9, addr := 1 } 0 twoPings)
        (lostPing ++ [.ping 1 true, .serve 0 true, .pong 0 1]) = some s ∧
      s.clients[1]? = some c ∧ c.ended = some .counted ∧ (c.pings : Int) = 2 ∧
      c.pongs = c.pings ∧ (c.sleeps : Int) = 1 := by
  have haddrs : OwnAddresses { port := 9, addr := 1 } twoPings := ⟨by decide, by decide⟩
  obtain ⟨s, c, hrun, hi, hended, hechoes⟩ :
      ∃ s c, replay step (start { port := 9, addr := 1 } 0 twoPings)
          (lostPing ++ [.ping 1 true, .serve 0 true, .pong 0 1]) = some s ∧
        s.clients[1]? = some c ∧ c.ended = some .counted ∧ c.echoMode = 0 :=
    ⟨_, _, rfl, rfl, rfl, rfl⟩
  have hmode : c.echoMode ≠ 2 := by
    rw [hechoes]
    decide
  obtain ⟨hpings, hpongs, hsleeps⟩ :=
    (counted_exact haddrs hrun rfl hi (by decide) (by decide)).2 hended
  exact ⟨s, c, hrun, hi, hended, hpings, hpongs hmode, hsleeps⟩

end UdpPing

end Nwchecker.UnixIo
