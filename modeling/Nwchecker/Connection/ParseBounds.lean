import Nwchecker.Connection.ParseLoop

/-!
# The parse loop stays inside the received bytes

Except when it does not: `parse_staysInside_iff` says exactly when. The test in front of a package
is 32 bits wide, so a length field of 2^32 - 16 or more passes it.
-/

namespace Nwchecker

open Words Framing Loop

variable {n k : Nat} {fs : List (List UInt8)} {rest : List UInt8} {mode : Mode} {p : ParseState}
  {recvTs : UInt32} {env : PassEnv} {e : Nat → PassEnv}

/-- The package a pass acts on: both tests let it pass, and a server is able to answer it. -/
def ParseState.inHand (p : ParseState) : Option NwcQosHdr :=
  if u32 p.rbytes < qosHdrLen then none
  else
    match p.session.conn.recvBuff.hdrAt p.pkgPtr with
    | none => none
    | some pkg =>
      if u32 p.rbytes < pkgTotal pkg then none
      else if p.session.conn.mode = .server ∧ p.session.io.canSend = false then none
      else some pkg

/--
One pass does not leave the `n` bytes that were held when the loop was entered: `pkg_ptr` and
`rbytes` add up, the package lies inside, and both move by its length.
-/
structure StaysInside (n : Nat) (recvTs : UInt32) (env : PassEnv) (p : ParseState) : Prop where
  sum : (p.pkgPtr : Int) + p.rbytes = n
  package : ∀ pkg, p.inHand = some pkg → p.pkgPtr + (qosHdrLen + pkg.length.toNat) ≤ n
  advance : ∀ pkg p', p.inHand = some pkg → parsePass recvTs env p = .again p' →
    p'.pkgPtr = p.pkgPtr + (qosHdrLen + pkg.length.toNat) ∧
      p'.rbytes = p.rbytes - ((qosHdrLen + pkg.length.toNat : Nat) : Int)

theorem inHand_eq (h : p.Inside n) :
    p.inHand =
      if Accepted p.todo ∧ ¬(p.session.conn.mode = .server ∧ p.session.io.canSend = false) then
        some (NwcQosHdr.ofBytes p.todo)
      else none := by
  have hacc := h.accepted_iff
  rw [ParseState.inHand, h.u32_rbytes]
  by_cases hlen : p.todo.length < qosHdrLen
  · rw [if_pos hlen, if_neg (fun hc => by have := (hacc.mp hc.1).1; omega)]
  · rw [if_neg hlen, h.hdrAt (by omega)]
    dsimp only
    by_cases htot : p.todo.length < pkgTotal (NwcQosHdr.ofBytes p.todo)
    · rw [if_pos htot, if_neg (fun hc => by have := (hacc.mp hc.1).2; omega)]
    · have ha : Accepted p.todo := hacc.mpr ⟨by omega, by omega⟩
      rw [if_neg htot]
      by_cases hblocked : p.session.conn.mode = .server ∧ p.session.io.canSend = false
      · rw [if_pos hblocked, if_neg (fun hc => hc.2 hblocked)]
      · rw [if_neg hblocked, if_pos ⟨ha, hblocked⟩]

/-- A pass that goes round again, by the three ways it can. -/
theorem parsePass_again {p' : ParseState} (h : p.Inside n)
    (hpass : parsePass recvTs env p = .again p') :
    Accepted p.todo ∧
      (p.session.conn.mode = .client ∧ p' = clientDone recvTs p ∨
        p.session.conn.mode = .server ∧ p.session.io.canSend = true ∧ ¬HardError env.call ∧
          p' = serverDone recvTs env p ∨
        p.session.conn.mode = .server ∧ p.session.io.canSend = false ∧ p' = p) := by
  by_cases ha : Accepted p.todo
  · refine ⟨ha, ?_⟩
    cases hm : p.session.conn.mode with
    | client =>
      rw [parsePass_client h hm ha] at hpass
      exact Or.inl ⟨rfl, (Flow.again.inj hpass).symm⟩
    | server =>
      cases hs : p.session.io.canSend with
      | true =>
        rw [parsePass_server recvTs env h hm hs ha] at hpass
        split at hpass
        · cases hpass
        · next hhard =>
          exact Or.inr (Or.inl ⟨rfl, rfl, hhard, (Flow.again.inj hpass).symm⟩)
      | false =>
        rw [parsePass_stuck h hm hs ha] at hpass
        exact Or.inr (Or.inr ⟨rfl, rfl, (Flow.again.inj hpass).symm⟩)
  · rw [parsePass_drained h ha] at hpass
    cases hpass

/-- A pass over a complete package stays inside. -/
theorem staysInside_of_complete (h : p.Inside n)
    (hc : Accepted p.todo → p.inHand ≠ none → qosFormat.Complete p.todo) :
    StaysInside n recvTs env p := by
  have hin := inHand_eq h
  have hlen := h.todo_length
  have hsum := h.sum
  have hnn := h.nonneg
  have hpkg : ∀ pkg, p.inHand = some pkg →
      pkg = NwcQosHdr.ofBytes p.todo ∧ qosFormat.Complete p.todo ∧
        ¬(p.session.conn.mode = .server ∧ p.session.io.canSend = false) := by
    intro pkg hp
    rw [hp] at hin
    split at hin
    · next hcond =>
      exact ⟨Option.some.inj hin, hc hcond.1 (by rw [hp]; simp), hcond.2⟩
    · cases hin
  refine ⟨h.sum, fun pkg hp => ?_, fun pkg p' hp hpass => ?_⟩
  · obtain ⟨rfl, hcomp, -⟩ := hpkg pkg hp
    have := hcomp.2
    rw [← qosFormat_frameLen]
    omega
  · obtain ⟨rfl, hcomp, hnb⟩ := hpkg pkg hp
    rw [← qosFormat_frameLen]
    rcases (parsePass_again h hpass).2 with ⟨-, rfl⟩ | ⟨-, -, -, rfl⟩ | ⟨hm, hs, -⟩
    · exact h.advance hcomp
    · exact h.advance hcomp
    · exact absurd ⟨hm, hs⟩ hnb

/-- Where the heads of the loop are, as long as no overflowing rest is taken for a package. -/
theorem heads_done (s : Session) {data : List UInt8} (h : data.length ≤ s.conn.recvRequest)
    {fs : List (List UInt8)} {rest : List UInt8}
    (hcut : cut qosFormat (s.conn.leftover ++ data) = (fs, rest))
    (hno : Overflows rest → s.conn.mode = .server ∧ ¬Answered s.io.canSend e fs.length) :
    ∀ {k : Nat} {p : ParseState}, HeadAt (parsePass recvTs) e (parseEntry s data) k p →
      ∃ j, PackagesDone (s.conn.rbytes + data.length) fs rest s.conn.mode j p ∧
        (s.conn.mode = .server → p.session.io.canSend = true →
          j = k ∧ Answered s.io.canSend e k) := by
  apply HeadAt.invariant (P := fun k p =>
    ∃ j, PackagesDone (s.conn.rbytes + data.length) fs rest s.conn.mode j p ∧
      (s.conn.mode = .server → p.session.io.canSend = true → j = k ∧ Answered s.io.canSend e k))
  · have h0 := packagesDone_entry s h
    rw [hcut] at h0
    refine ⟨0, h0, fun _ hs => ⟨rfl, ⟨hs, ?_⟩, ?_⟩⟩
    · intro i hi
      omega
    · intro i hi
      omega
  · rintro k p p' ⟨j, hdone, htrue⟩ hpass
    obtain ⟨hacc, hways⟩ := parsePass_again hdone.inside hpass
    rw [hdone.mode_eq] at hways
    rcases hways with ⟨hm, rfl⟩ | ⟨hm, hs, hhard, rfl⟩ | ⟨hm, hs, rfl⟩
    · -- a client would have taken the rest, and `hno` speaks of servers
      have hj : j < fs.length := by
        rcases hdone.accepted_iff.mp hacc with hj | ⟨-, ho⟩
        · exact hj
        · rw [hm] at hno
          exact absurd (hno ho).1 (by simp)
      exact ⟨j + 1, hdone.clientDone hj, fun hm' => by rw [hm] at hm'; cases hm'⟩
    · obtain ⟨rfl, hans⟩ := htrue hm hs
      have hj : j < fs.length := by
        rcases hdone.accepted_iff.mp hacc with hj | ⟨rfl, ho⟩
        · exact hj
        · exact absurd hans (hno ho).2
      refine ⟨j + 1, hdone.serverDone _ _ hj, fun _ hs' => ⟨rfl, answered_succ.mpr ⟨hans, ?_⟩⟩⟩
      -- `can_send` is still set, so the send was not refused
      have hne : nwcTcpHandlerSendRc (e j).call ≠ -EAGAIN := by
        have : (serverSent recvTs (e j) p).io.canSend = true := hs'
        rw [serverSent_canSend, hs] at this
        simpa using this
      unfold HardError at hhard
      omega
    · -- `continue`: the same head once more
      exact ⟨j, hdone, fun _ hs' => by rw [hs] at hs'; cases hs'⟩

/--
**When the parse loop stays inside the received bytes.**

It does so exactly when no header with an overflowing length field is taken for a package: either
the bytes behind the complete packages do not start with one, or a server stops before it gets
there.
-/
theorem parse_staysInside_iff (s : Session) (data : List UInt8)
    (h : data.length ≤ s.conn.recvRequest) (recvTs : UInt32) (e : Nat → PassEnv) :
    (∀ k p, HeadAt (parsePass recvTs) e (parseEntry s data) k p →
        StaysInside (s.conn.rbytes + data.length) recvTs (e k) p) ↔
      (Overflows (cut qosFormat (s.conn.leftover ++ data)).2 →
        s.conn.mode = .server ∧
          ¬Answered s.io.canSend e (cut qosFormat (s.conn.leftover ++ data)).1.length) := by
  rcases hcut : cut qosFormat (s.conn.leftover ++ data) with ⟨fs, rest⟩
  constructor
  · intro hall ho
    by_contra hno
    -- the loop gets to the rest, which passes the test
    have hans : s.conn.mode = .server → Answered s.io.canSend e fs.length := by
      intro hm
      by_contra hna
      exact hno ⟨hm, hna⟩
    obtain ⟨p, hp, hdone, hcan⟩ := head_reached recvTs e s h hcut fs.length
      (Nat.le_refl _) hans
    have hacc : Accepted p.todo := hdone.accepted_iff.mpr (Or.inr ⟨rfl, ho⟩)
    have hhand : p.inHand = some (NwcQosHdr.ofBytes p.todo) := by
      rw [inHand_eq hdone.inside, if_pos]
      refine ⟨hacc, ?_⟩
      rintro ⟨hm, hs⟩
      rw [hdone.mode_eq] at hm
      rw [hcan hm] at hs
      cases hs
    have hbound := (hall _ _ hp).package _ hhand
    have hfits := hdone.inside.fits
    have hlong : 4294967296 ≤ qosFormat.frameLen rest := ho.2
    rw [← qosFormat_frameLen, hdone.todo_eq] at hbound
    unfold RECV_BUFFER_LEN at hfits
    omega
  · intro hno k p hp
    obtain ⟨j, hdone, htrue⟩ := heads_done s h hcut hno hp
    refine staysInside_of_complete hdone.inside fun hacc hhand => ?_
    rcases hdone.accepted_iff.mp hacc with hj | ⟨rfl, ho⟩
    · exact hdone.complete hj
    · exfalso
      obtain ⟨hm, hna⟩ := hno ho
      cases hs : p.session.io.canSend with
      | true =>
        obtain ⟨hjk, hans⟩ := htrue hm hs
        rw [← hjk] at hans
        exact hna hans
      | false =>
        refine hhand ?_
        rw [inHand_eq hdone.inside, if_neg]
        rintro ⟨-, hnb⟩
        exact hnb ⟨by rw [hdone.mode_eq, hm], hs⟩

/-- The socket takes every ack, and the clock stands still. -/
def steadyEnv : PassEnv where
  now := 0
  stale := 0
  call := .done 20

/-- A header of zeros is a complete package without payload. -/
theorem cut_emptyPackage :
    cut qosFormat (List.replicate 16 0) = ([List.replicate 16 0], []) := by
  have hframe : qosFormat.IsFrame (List.replicate 16 0) := by decide
  have hnil : Parsed qosFormat ([] : List UInt8) [] [] := parsed_nil (by decide)
  simpa using (hnil.cons hframe).eq_cut

theorem sample_todo (mode : Mode) {data : List UInt8}
    (h : data.length ≤ (Session.sample mode).conn.recvRequest) :
    (parseEntry (Session.sample mode) data).todo = data := by
  rw [(parseEntry_inside _ h).2]
  rfl

theorem sample_leftover (mode : Mode) (data : List UInt8) :
    (Session.sample mode).conn.leftover ++ data = data := rfl

theorem emptyPackage_staysInside :
    StaysInside 16 0 steadyEnv (parseEntry (Session.sample .client) (List.replicate 16 0)) := by
  refine (parse_staysInside_iff (Session.sample .client) (List.replicate 16 0) (by decide) 0
    fun _ => steadyEnv).mpr ?_ 0 _ (headAt_zero _ _)
  rw [sample_leftover, cut_emptyPackage]
  exact fun ho => absurd ho (by decide)

/-- A header whose length field is 2^32 - 16. -/
def hugePackage : List UInt8 := List.replicate 12 0 ++ [0xF0, 0xFF, 0xFF, 0xFF]

theorem hugePackage_not_staysInside : ¬∀ k p,
    HeadAt (parsePass 0) (fun _ => steadyEnv)
      (parseEntry (Session.sample .client) hugePackage) k p →
    StaysInside 16 0 steadyEnv p := by
  intro hall
  have hreq : hugePackage.length ≤ (Session.sample .client).conn.recvRequest := by decide
  have hin := (parseEntry_inside _ hreq).1
  have hhand := inHand_eq hin
  rw [sample_todo .client hreq, if_pos ⟨by decide, fun hc => by cases hc.1⟩] at hhand
  have hbound := (hall 0 _ (headAt_zero _ _)).package _ hhand
  revert hbound
  decide

end Nwchecker
