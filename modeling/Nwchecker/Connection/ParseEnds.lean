import Nwchecker.Connection.ParseBounds

/-!
# The parse loop ends

Again only under a condition, which `parse_leaves_iff` states. `continue` while `can_send` is
clear changes nothing, so a server that comes back to the loop head with a complete package stays
there.
-/

namespace Nwchecker

open Words Framing Loop

variable {n k : Nat} {fs : List (List UInt8)} {rest : List UInt8} {mode : Mode} {p : ParseState}
  {recvTs : UInt32} {env : PassEnv} {e : Nat → PassEnv}

/-- The loop leaves by one of its `break`s after finitely many passes. -/
def LeavesByBreak (recvTs : UInt32) (e : Nat → PassEnv) (p : ParseState) : Prop :=
  ∃ r, LeavesWith (parsePass recvTs) e p r ∧ ∀ q, r ≠ .wild q

/-- How many packages pass the tests of the loop if nothing stops it before. -/
def acceptedCount (fs : List (List UInt8)) (rest : List UInt8) : Nat :=
  if Overflows rest then fs.length + 1 else fs.length

/--
After the overflowing package is "consumed" the 32-bit count says that a header is still there,
while `pkg_ptr` is 4 GiB further on.
-/
def WildAfter (rest : List UInt8) : Prop :=
  Overflows rest ∧ qosHdrLen + qosFormat.frameLen rest ≤ rest.length + 4294967296

instance (rest : List UInt8) : Decidable (WildAfter rest) := inferInstanceAs (Decidable (_ ∧ _))

/--
What "consuming" an overflowing package does: the pointer takes the whole sum, `rbytes` what is left
of it in 32 bits.
-/
theorem ParseState.Inside.advance_overflow (h : p.Inside n) (ho : Overflows p.todo) (s : Session) :
    (ParseState.advance { p with session := s } (NwcQosHdr.ofBytes p.todo)).pkgPtr
        = p.pkgPtr + qosFormat.frameLen p.todo ∧
      (ParseState.advance { p with session := s } (NwcQosHdr.ofBytes p.todo)).rbytes
        = ((p.todo.length + 4294967296 - qosFormat.frameLen p.todo : Nat) : Int) := by
  have hlt := frameLen_lt p.todo
  have hlong : 4294967296 ≤ qosFormat.frameLen p.todo := ho.2
  have hhdr : qosHdrLen ≤ p.todo.length := ho.1
  have hle := h.todo_le
  have hfits := h.fits
  have hu := h.u32_rbytes
  unfold RECV_BUFFER_LEN at hfits
  refine ⟨?_, ?_⟩
  · simp only [ParseState.advance, qosFormat_frameLen]
    omega
  · unfold qosHdrLen at *
    simp only [ParseState.advance, pkgTotal_ofBytes, hu]
    rw [i32_of_lt (by omega)]
    omega

/-- What follows when the overflowing package is consumed. -/
theorem parsePass_after_overflow (recvTs : UInt32) (env : PassEnv)
    (h : PackagesDone n fs rest mode fs.length p)
    (ho : Overflows rest) (s : Session) :
    (WildAfter rest → ∃ q, parsePass recvTs env
      (ParseState.advance { p with session := s } (NwcQosHdr.ofBytes p.todo)) = .leave (.wild q)) ∧
    (¬WildAfter rest → ∃ q, parsePass recvTs env
      (ParseState.advance { p with session := s } (NwcQosHdr.ofBytes p.todo))
        = .leave (.drained q)) := by
  obtain rfl := h.todo_eq
  have hle := h.inside.todo_le
  have hfits := h.inside.fits
  have hlong : 4294967296 ≤ qosFormat.frameLen p.todo := ho.2
  have hlt := frameLen_lt p.todo
  have hhdr := ho.1
  obtain ⟨hptr, hcount⟩ := h.inside.advance_overflow ho s
  have hrb : u32 (ParseState.advance { p with session := s } (NwcQosHdr.ofBytes p.todo)).rbytes
      = p.todo.length + 4294967296 - qosFormat.frameLen p.todo := by
    unfold RECV_BUFFER_LEN at hfits
    rw [hcount, u32_natCast (by omega)]
  unfold WildAfter
  refine ⟨?_, fun hw => ?_⟩
  · rintro ⟨-, hw⟩
    refine ⟨ParseState.advance { p with session := s } (NwcQosHdr.ofBytes p.todo), ?_⟩
    rw [parsePass, hrb, if_neg (by omega), RecvBuffer.hdrAt, hptr, if_neg]
    unfold RECV_BUFFER_LEN
    omega
  · refine ⟨ParseState.advance { p with session := s } (NwcQosHdr.ofBytes p.todo), ?_⟩
    rw [parsePass, hrb, if_pos]
    by_contra hge
    exact hw ⟨ho, by omega⟩

/-- The end of the walk: behind the last package the loop leaves. -/
theorem leaves_at_rest {s : Session} {data : List UInt8}
    (hp : HeadAt (parsePass recvTs) e (parseEntry s data) k p)
    (h : PackagesDone n fs rest mode fs.length p) (ho : ¬Overflows rest) :
    LeavesByBreak recvTs e (parseEntry s data) := by
  have hna : ¬Accepted p.todo := by
    intro ha
    rcases h.accepted_iff.mp ha with hlt | ⟨-, ho'⟩
    · omega
    · exact ho ho'
  exact ⟨_, hp.leave (parsePass_drained h.inside hna), fun q hq => by cases hq⟩

/-- The end of the walk when the rest overflows and the loop consumes it. -/
theorem leaves_after_overflow {s : Session} {data : List UInt8} {t : Session}
    (hp : HeadAt (parsePass recvTs) e (parseEntry s data) (k + 1)
      (ParseState.advance { p with session := t } (NwcQosHdr.ofBytes p.todo)))
    (h : PackagesDone n fs rest mode fs.length p) (ho : Overflows rest) :
    LeavesByBreak recvTs e (parseEntry s data) ↔ ¬WildAfter rest := by
  obtain ⟨hwild, hdrained⟩ := parsePass_after_overflow recvTs (e (k + 1)) h ho t
  constructor
  · rintro ⟨r, hr, hnw⟩ hw
    obtain ⟨q, hq⟩ := hwild hw
    exact hnw q (hr.unique (hp.leave hq))
  · intro hw
    obtain ⟨q, hq⟩ := hdrained hw
    exact ⟨_, hp.leave hq, fun _ h => by cases h⟩

theorem not_leaves_stuck {s : Session} {data : List UInt8}
    (hp : HeadAt (parsePass recvTs) e (parseEntry s data) k p) (h : p.Inside n)
    (hm : p.session.conn.mode = .server) (hs : p.session.io.canSend = false)
    (ha : Accepted p.todo) : ¬LeavesByBreak recvTs e (parseEntry s data) := by
  rintro ⟨r, hr, -⟩
  exact not_leaves_of_stuck hp (fun _ => parsePass_stuck h hm hs ha) r hr

theorem lt_acceptedCount {i : Nat} :
    i < acceptedCount fs rest ↔ i < fs.length ∨ (i = fs.length ∧ Overflows rest) := by
  unfold acceptedCount
  by_cases ho : Overflows rest
  · simp [ho]
    omega
  · simp [ho]

section Server

variable {s : Session} {data : List UInt8}

/-- A server that has answered what came before reaches package `k`. -/
theorem server_reaches (recvTs : UInt32) (h : data.length ≤ s.conn.recvRequest)
    (hcut : cut qosFormat (s.conn.leftover ++ data) = (fs, rest)) (hm : s.conn.mode = .server)
    (hk : k < acceptedCount fs rest) (hans : Answered s.io.canSend e k) :
    ∃ p, HeadAt (parsePass recvTs) e (parseEntry s data) k p ∧
      PackagesDone (s.conn.rbytes + data.length) fs rest .server k p ∧
      p.session.io.canSend = true ∧ Accepted p.todo := by
  have hle : k ≤ fs.length := by
    rcases lt_acceptedCount.mp hk with hlt | ⟨rfl, -⟩
    · exact Nat.le_of_lt hlt
    · exact Nat.le_refl _
  obtain ⟨p, hp, hdone, hcan⟩ := head_reached recvTs e s h hcut k hle fun _ => hans
  rw [hm] at hdone
  exact ⟨p, hp, hdone, hcan hm, hdone.accepted_iff.mpr (lt_acceptedCount.mp hk)⟩

/-- With `can_send` set it consumes the package. -/
theorem server_consumes (recvTs : UInt32) (h : data.length ≤ s.conn.recvRequest)
    (hcut : cut qosFormat (s.conn.leftover ++ data) = (fs, rest)) (hm : s.conn.mode = .server)
    (hk : k < acceptedCount fs rest) (hans : Answered s.io.canSend e k)
    (hhard : ¬HardError (e k).call) :
    ∃ p, HeadAt (parsePass recvTs) e (parseEntry s data) (k + 1) (serverDone recvTs (e k) p) ∧
      PackagesDone (s.conn.rbytes + data.length) fs rest .server k p ∧
      p.session.io.canSend = true := by
  obtain ⟨p, hp, hdone, hcan, hacc⟩ := server_reaches recvTs h hcut hm hk hans
  have hpass := parsePass_server recvTs (e k) hdone.inside hdone.mode_eq hcan hacc
  rw [if_neg hhard] at hpass
  exact ⟨p, hp.succ hpass, hdone, hcan⟩

/-- A server that meets a package with `can_send` clear never leaves the loop. -/
theorem server_stuck (h : data.length ≤ s.conn.recvRequest)
    (hcut : cut qosFormat (s.conn.leftover ++ data) = (fs, rest)) (hm : s.conn.mode = .server) :
    ∀ i < acceptedCount fs rest, NoHardError e i → ¬CanSendAt s.io.canSend e i →
      ¬LeavesByBreak recvTs e (parseEntry s data) := by
  intro i
  induction i with
  | zero =>
    intro hi _ hcan
    -- the flag was clear at entry
    have hdone := packagesDone_entry s h
    rw [hcut] at hdone
    have hs : s.io.canSend = false := by
      rw [← Bool.not_eq_true]
      exact fun hs => hcan ⟨hs, fun k hk => by omega⟩
    exact not_leaves_stuck (headAt_zero _ _) hdone.inside hm hs
      (hdone.accepted_iff.mpr (lt_acceptedCount.mp hi))
  | succ i ih =>
    intro hi hhard hcan
    have hhard' : NoHardError e i := fun k hk => hhard k (by omega)
    by_cases hcan' : CanSendAt s.io.canSend e i
    · -- package `i` is the one whose send met `-EAGAIN`
      have hagain : nwcTcpHandlerSendRc (e i).call = -EAGAIN := by
        by_contra hne
        refine hcan ⟨hcan'.1, fun k hk => ?_⟩
        rcases Nat.lt_succ_iff_lt_or_eq.mp hk with hk | rfl
        · exact hcan'.2 k hk
        · exact hne
      obtain ⟨p, hp, hdone, hs⟩ := server_consumes recvTs h hcut hm (by omega)
        ⟨hcan', hhard'⟩ (hhard i (Nat.lt_succ_self i))
      have hlt : i < fs.length := by
        rcases lt_acceptedCount.mp hi with hlt | ⟨heq, -⟩ <;> omega
      have hnext := hdone.serverDone recvTs (e i) hlt
      refine not_leaves_stuck hp hnext.inside hnext.mode_eq ?_
        (hnext.accepted_iff.mpr (lt_acceptedCount.mp hi))
      show (serverSent recvTs (e i) p).io.canSend = false
      rw [serverSent_canSend, hs, hagain]
      rfl
    · exact ih (by omega) hhard' hcan'

/-- A server that answers all packages gets to the rest. -/
theorem server_drains (h : data.length ≤ s.conn.recvRequest)
    (hcut : cut qosFormat (s.conn.leftover ++ data) = (fs, rest)) (hm : s.conn.mode = .server)
    (hhard : NoHardError e (acceptedCount fs rest))
    (hans : ∀ i < acceptedCount fs rest, Answered s.io.canSend e i) :
    LeavesByBreak recvTs e (parseEntry s data) ↔ ¬WildAfter rest := by
  by_cases ho : Overflows rest
  · have hlast : fs.length < acceptedCount fs rest := lt_acceptedCount.mpr (Or.inr ⟨rfl, ho⟩)
    obtain ⟨p, hp, hdone, -⟩ := server_consumes recvTs h hcut hm hlast
      (hans _ hlast) (hhard _ hlast)
    exact leaves_after_overflow hp hdone ho
  · -- the head behind the last package is the entry, or follows its last pass
    have hleaves : LeavesByBreak recvTs e (parseEntry s data) := by
      rcases Nat.eq_zero_or_pos fs.length with hz | hpos
      · have hdone := packagesDone_entry s h
        rw [hcut] at hdone
        simp only at hdone
        rw [← hz] at hdone
        exact leaves_at_rest (headAt_zero _ _) hdone ho
      · have hlast : fs.length - 1 < acceptedCount fs rest :=
          lt_acceptedCount.mpr (Or.inl (by omega))
        obtain ⟨p, hp, hdone, -⟩ := server_consumes recvTs h hcut hm hlast
          (hans _ hlast) (hhard _ hlast)
        have hnext := hdone.serverDone recvTs (e (fs.length - 1)) (by omega)
        rw [show fs.length - 1 + 1 = fs.length by omega] at hp hnext
        exact leaves_at_rest hp hnext ho
    exact ⟨fun _ hw => ho hw.1, fun _ => hleaves⟩

/-- A server that closes the connection leaves the loop. -/
theorem server_closes (h : data.length ≤ s.conn.recvRequest)
    (hcut : cut qosFormat (s.conn.leftover ++ data) = (fs, rest)) (hm : s.conn.mode = .server)
    (hk : k < acceptedCount fs rest) (hans : Answered s.io.canSend e k)
    (hhard : HardError (e k).call) : LeavesByBreak recvTs e (parseEntry s data) := by
  obtain ⟨p, hp, hdone, hcan, hacc⟩ := server_reaches recvTs h hcut hm hk hans
  have hpass := parsePass_server recvTs (e k) hdone.inside hdone.mode_eq hcan hacc
  rw [if_pos hhard] at hpass
  exact ⟨_, hp.leave hpass, fun _ hq => by cases hq⟩

end Server

/-- A client leaves the loop unless an overflowing rest sends it out of the buffer. -/
theorem client_leaves_iff {s : Session} {data : List UInt8} (h : data.length ≤ s.conn.recvRequest)
    (hcut : cut qosFormat (s.conn.leftover ++ data) = (fs, rest)) (hm : s.conn.mode = .client) :
    LeavesByBreak recvTs e (parseEntry s data) ↔ ¬WildAfter rest := by
  obtain ⟨p, hp, hdone, -⟩ := head_reached recvTs e s h hcut fs.length
    (Nat.le_refl _) fun hm' => by rw [hm] at hm'; cases hm'
  rw [hm] at hdone
  by_cases ho : Overflows rest
  · have hacc : Accepted p.todo := hdone.accepted_iff.mpr (Or.inr ⟨rfl, ho⟩)
    have hnext := hp.succ (parsePass_client hdone.inside hdone.mode_eq hacc)
    exact leaves_after_overflow hnext hdone ho
  · exact ⟨fun _ hw => ho hw.1, fun _ => leaves_at_rest hp hdone ho⟩

/--
**When the parse loop ends.**

A server must not meet a package with `can_send` clear, unless it closed the connection before:
`continue` would lead it back to the same package for ever. And in both modes no overflowing
package may send `pkg_ptr` out of the buffer with a header still to read.
-/
theorem parse_leaves_iff (s : Session) (data : List UInt8)
    (h : data.length ≤ s.conn.recvRequest) (recvTs : UInt32) (e : Nat → PassEnv) :
    LeavesByBreak recvTs e (parseEntry s data) ↔
      (s.conn.mode = .server →
        ∀ i < acceptedCount (cut qosFormat (s.conn.leftover ++ data)).1
            (cut qosFormat (s.conn.leftover ++ data)).2,
          NoHardError e i → CanSendAt s.io.canSend e i) ∧
      (WildAfter (cut qosFormat (s.conn.leftover ++ data)).2 →
        s.conn.mode = .server ∧
          ∃ i < acceptedCount (cut qosFormat (s.conn.leftover ++ data)).1
              (cut qosFormat (s.conn.leftover ++ data)).2, HardError (e i).call) := by
  rcases hcut : cut qosFormat (s.conn.leftover ++ data) with ⟨fs, rest⟩
  dsimp only
  cases hm : s.conn.mode with
  | client =>
    rw [client_leaves_iff h hcut hm]
    simp
  | server =>
    simp only [true_and, forall_const]
    by_cases hflag : ∀ i < acceptedCount fs rest, NoHardError e i → CanSendAt s.io.canSend e i
    · by_cases hhard : ∃ i < acceptedCount fs rest, HardError (e i).call
      · -- the first failed send closes the connection
        have hleaves : LeavesByBreak recvTs e (parseEntry s data) := by
          obtain ⟨hk, hfail⟩ := Nat.find_spec hhard
          have hbefore : NoHardError e (Nat.find hhard) := fun j hj hje =>
            Nat.find_min hhard hj ⟨by omega, hje⟩
          exact server_closes h hcut hm hk ⟨hflag _ hk hbefore, hbefore⟩ hfail
        exact ⟨fun _ => ⟨hflag, fun _ => hhard⟩, fun _ => hleaves⟩
      · have hnone : NoHardError e (acceptedCount fs rest) := fun k hk hke => hhard ⟨k, hk, hke⟩
        have hbefore : ∀ i < acceptedCount fs rest, NoHardError e i :=
          fun i hi k hk => hnone k (by omega)
        rw [server_drains h hcut hm hnone fun i hi => ⟨hflag i hi (hbefore i hi), hbefore i hi⟩]
        exact ⟨fun hw => ⟨hflag, fun hw' => absurd hw' hw⟩, fun hr hw => hhard (hr.2 hw)⟩
    · constructor
      · intro hleaves
        exfalso
        refine hflag fun i hi hno => ?_
        by_contra hcan
        exact server_stuck h hcut hm i hi hno hcan hleaves
      · rintro ⟨hf, -⟩
        exact absurd hf hflag

theorem emptyPackage_leaves :
    LeavesByBreak 0 (fun _ => steadyEnv)
      (parseEntry (Session.sample .server) (List.replicate 16 0)) := by
  refine (parse_leaves_iff (Session.sample .server) (List.replicate 16 0) (by decide) 0
    fun _ => steadyEnv).mpr ?_
  rw [sample_leftover, cut_emptyPackage]
  have hsent : nwcTcpHandlerSendRc steadyEnv.call ≠ -EAGAIN := by decide
  refine ⟨fun _ i _ _ => ⟨rfl, fun k _ => hsent⟩, fun hw => ?_⟩
  exact absurd hw (by decide)

/-- The session of a server whose last ack was refused with `-EAGAIN`. -/
def Session.refused : Session :=
  { Session.sample .server with io := { (Session.sample .server).io with canSend := false } }

theorem emptyPackage_not_leaves :
    ¬LeavesByBreak 0 (fun _ => steadyEnv) (parseEntry Session.refused (List.replicate 16 0)) := by
  have hreq : (List.replicate 16 (0 : UInt8)).length ≤ Session.refused.conn.recvRequest := by decide
  obtain ⟨hin, htodo⟩ := parseEntry_inside Session.refused hreq
  refine not_leaves_stuck (headAt_zero _ _) hin rfl rfl ?_
  rw [htodo]
  show Accepted (List.replicate 16 0)
  decide

end Nwchecker
