import Nwchecker.Connection.Recv

/-!
# The walk of the parse loop

The loop is entered with some bytes in the buffer. Cutting them at exact lengths gives the
complete packages and a rest (`Framing.cut`), and the loop walks along that cut:
`PackagesDone k` says that `k` packages are done. Two things stop the walk.

* The rest has a header whose length field is 2^32 - 16 or more (`Overflows`). Then the 32-bit
  test lets it pass.
* The mode is server and `can_send` is clear, so that `continue` leads back to the same state.

`ParseBounds.lean` and `ParseEnds.lean` draw the conclusions.
-/

namespace Nwchecker

open Words Framing Loop

/-- The first `k` packages `fs` of the `n` held bytes are done, in front of `p` are the others. -/
structure PackagesDone (n : Nat) (fs : List (List UInt8)) (rest : List UInt8) (mode : Mode)
    (k : Nat) (p : ParseState) : Prop where
  inside : p.Inside n
  mode_eq : p.session.conn.mode = mode
  le : k ≤ fs.length
  parsed : Parsed qosFormat p.todo (fs.drop k) rest

variable {n k : Nat} {fs : List (List UInt8)} {rest : List UInt8} {mode : Mode} {p : ParseState}
  {recvTs : UInt32} {env : PassEnv} {e : Nat → PassEnv}

theorem PackagesDone.todo_eq (h : PackagesDone n fs rest mode fs.length p) : p.todo = rest := by
  have := h.parsed.eq
  simpa using this

theorem PackagesDone.complete (h : PackagesDone n fs rest mode k p) (hk : k < fs.length) :
    qosFormat.Complete p.todo := by
  have hparsed := h.parsed
  rw [List.drop_eq_getElem_cons hk] at hparsed
  rw [hparsed.eq, List.flatten_cons, List.append_assoc]
  exact (hparsed.frames _ List.mem_cons_self).complete_append _

/-- Which packages pass the two tests: the complete ones, and a rest that overflows. -/
theorem PackagesDone.accepted_iff (h : PackagesDone n fs rest mode k p) :
    Accepted p.todo ↔ k < fs.length ∨ (k = fs.length ∧ Overflows rest) := by
  rcases Nat.lt_or_eq_of_le h.le with hk | rfl
  · exact ⟨fun _ => Or.inl hk, fun _ => Or.inl (h.complete hk)⟩
  · have hrest := h.parsed.rest
    rw [Accepted, h.todo_eq]
    constructor
    · rintro (hc | ho)
      · exact absurd hc hrest
      · exact Or.inr ⟨rfl, ho⟩
    · rintro (hk | ⟨-, ho⟩)
      · omega
      · exact Or.inr ho

/-- Taking the package in front off, whatever else happens to the session. -/
theorem PackagesDone.next (h : PackagesDone n fs rest mode k p) (hk : k < fs.length) {s : Session}
    (hs : s.conn.recvBuff = p.session.conn.recvBuff) (hm : s.conn.mode = p.session.conn.mode) :
    PackagesDone n fs rest mode (k + 1)
      (ParseState.advance { p with session := s } (NwcQosHdr.ofBytes p.todo)) := by
  obtain ⟨hin, htodo⟩ := todo_advance h.inside (h.complete hk) hs
  have hparsed := h.parsed
  rw [List.drop_eq_getElem_cons hk] at hparsed
  have hfront : qosFormat.frameLen p.todo = fs[k].length := by
    rw [hparsed.eq, List.flatten_cons, List.append_assoc]
    exact (hparsed.frames _ List.mem_cons_self).frameLen_append _
  refine ⟨hin, ?_, hk, ?_⟩
  · show s.conn.mode = mode
    rw [hm, h.mode_eq]
  · have hdrop : p.todo.drop (qosFormat.frameLen p.todo) = (fs.drop (k + 1)).flatten ++ rest := by
      rw [hfront]
      conv_lhs => rw [hparsed.eq]
      rw [List.flatten_cons, List.append_assoc]
      exact List.drop_left' rfl
    rw [htodo, hdrop]
    exact ⟨rfl, fun f hf => hparsed.frames f (List.mem_cons_of_mem _ hf), hparsed.rest⟩

theorem PackagesDone.clientDone (h : PackagesDone n fs rest mode k p) (hk : k < fs.length) :
    PackagesDone n fs rest mode (k + 1) (clientDone recvTs p) :=
  h.next hk rfl rfl

theorem serverSent_conn : (serverSent recvTs env p).conn = p.session.conn := by
  rw [serverSent, nwcIoSend_session]

theorem serverSent_canSend : (serverSent recvTs env p).io.canSend
    = (p.session.io.canSend && nwcTcpHandlerSendRc env.call != -EAGAIN) := by
  rw [serverSent, nwcIoSend_session]

theorem PackagesDone.serverDone (h : PackagesDone n fs rest mode k p) (recvTs : UInt32)
    (env : PassEnv) (hk : k < fs.length) :
    PackagesDone n fs rest mode (k + 1) (serverDone recvTs env p) :=
  h.next hk (by rw [serverSent_conn]) (by rw [serverSent_conn])

/-- The loop starts in front of the packages that the held bytes are cut into. -/
theorem packagesDone_entry (s : Session) {data : List UInt8}
    (h : data.length ≤ s.conn.recvRequest) :
    PackagesDone (s.conn.rbytes + data.length) (cut qosFormat (s.conn.leftover ++ data)).1
      (cut qosFormat (s.conn.leftover ++ data)).2 s.conn.mode 0 (parseEntry s data) := by
  obtain ⟨hin, htodo⟩ := parseEntry_inside s h
  refine ⟨hin, rfl, Nat.zero_le _, ?_⟩
  rw [htodo]
  exact cut_parsed _

/-! ## What the sends of a server come to -/

/-- `can_send` is set when package `i` is reached: at entry, and no send before met `-EAGAIN`. -/
def CanSendAt (canSend : Bool) (e : Nat → PassEnv) (i : Nat) : Prop :=
  canSend = true ∧ ∀ k < i, nwcTcpHandlerSendRc (e k).call ≠ -EAGAIN

/-- No send before package `i` failed for good. -/
def NoHardError (e : Nat → PassEnv) (i : Nat) : Prop := ∀ k < i, ¬HardError (e k).call

/-- Package `i` is reached with `can_send` set. -/
def Answered (canSend : Bool) (e : Nat → PassEnv) (i : Nat) : Prop :=
  CanSendAt canSend e i ∧ NoHardError e i

theorem answered_succ {c : Bool} {i : Nat} :
    Answered c e (i + 1) ↔ Answered c e i ∧ 0 < nwcTcpHandlerSendRc (e i).call := by
  unfold Answered CanSendAt NoHardError HardError
  constructor
  · rintro ⟨⟨hc, ha⟩, hh⟩
    have h1 := ha i (Nat.lt_succ_self i)
    have h2 := hh i (Nat.lt_succ_self i)
    exact ⟨⟨⟨hc, fun k hk => ha k (by omega)⟩, fun k hk => hh k (by omega)⟩, by omega⟩
  · rintro ⟨⟨⟨hc, ha⟩, hh⟩, hpos⟩
    refine ⟨⟨hc, fun k hk => ?_⟩, fun k hk => ?_⟩
    · rcases Nat.lt_succ_iff_lt_or_eq.mp hk with hk | rfl
      · exact ha k hk
      · unfold EAGAIN
        omega
    · rcases Nat.lt_succ_iff_lt_or_eq.mp hk with hk | rfl
      · exact hh k hk
      · rintro ⟨h, -⟩
        omega

theorem Answered.mono {c : Bool} {i j : Nat} (h : Answered c e j) (hij : i ≤ j) :
    Answered c e i :=
  ⟨⟨h.1.1, fun k hk => h.1.2 k (by omega)⟩, fun k hk => h.2 k (by omega)⟩

/--
The loop gets to package `k` when a client runs it, or when a server could answer every package
before.
-/
theorem head_reached (recvTs : UInt32) (e : Nat → PassEnv) (s : Session) {data : List UInt8}
    (h : data.length ≤ s.conn.recvRequest)
    {fs : List (List UInt8)} {rest : List UInt8}
    (hcut : cut qosFormat (s.conn.leftover ++ data) = (fs, rest)) :
    ∀ k ≤ fs.length, (s.conn.mode = .server → Answered s.io.canSend e k) →
      ∃ p, HeadAt (parsePass recvTs) e (parseEntry s data) k p ∧
        PackagesDone (s.conn.rbytes + data.length) fs rest s.conn.mode k p ∧
        (s.conn.mode = .server → p.session.io.canSend = true) := by
  intro k
  induction k with
  | zero =>
    intro _ hans
    refine ⟨_, headAt_zero _ _, ?_, fun hm => (hans hm).1.1⟩
    have h0 := packagesDone_entry s h
    rw [hcut] at h0
    exact h0
  | succ k ih =>
    intro hk hans
    obtain ⟨p, hp, hdone, hcan⟩ := ih (by omega) fun hm => (hans hm).mono (Nat.le_succ k)
    have hacc : Accepted p.todo := hdone.accepted_iff.mpr (Or.inl (by omega))
    cases hm : s.conn.mode with
    | client =>
      -- a client asks nothing of its socket
      rw [hm] at hdone
      refine ⟨_, hp.succ (parsePass_client hdone.inside hdone.mode_eq hacc),
        hdone.clientDone (by omega), fun hm' => ?_⟩
      cases hm'
    | server =>
      -- package `k` was answered, so the flag is still set behind it
      have hpos := (answered_succ.mp (hans hm)).2
      have hnot : ¬HardError (e k).call := by
        rintro ⟨hle, -⟩
        omega
      rw [hm] at hdone
      have hpass := parsePass_server recvTs (e k) hdone.inside hdone.mode_eq (hcan hm) hacc
      rw [if_neg hnot] at hpass
      refine ⟨_, hp.succ hpass, hdone.serverDone _ _ (by omega), fun _ => ?_⟩
      show (serverSent recvTs (e k) p).io.canSend = true
      have hne : nwcTcpHandlerSendRc (e k).call ≠ -EAGAIN := by
        unfold EAGAIN
        omega
      rw [serverSent_canSend, hcan hm]
      simpa using hne

end Nwchecker
