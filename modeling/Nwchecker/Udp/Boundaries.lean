import Nwchecker.Udp.Client

/-!
# Datagram boundaries

A UDP client keeps the boundaries of datagrams when each datagram that is one package is processed
as that package, and no processed frame is made of bytes of more than one datagram.

It does not always: what a malformed datagram leaves in the buffer is put in front of the next
one. `keepsBoundaries_iff` says when all goes well, over whole runs: as long as every datagram
arrives in a state in which it can do no harm (`HarmlessAt`).
-/

namespace Nwchecker

open Framing Machine

/-- The frame lies, as a whole, in the datagram `k`. -/
def LabelledFrame.From (f : LabelledFrame) (k : Nat) : Prop :=
  f.origins = List.replicate (qosFormat.frameLen f.bytes) k

/-! ## Labels -/

/-- Every label is a piece of the origins. -/
theorem labelFrames_mem {fs : List (List UInt8)} {origins : List Nat} {g : LabelledFrame}
    (h : g ∈ labelFrames fs origins) :
    g.bytes ∈ fs ∧ (∀ k ∈ g.origins, k ∈ origins) ∧ g.origins.length ≤ origins.length := by
  induction fs generalizing origins with
  | nil => exact absurd h List.not_mem_nil
  | cons f fs ih =>
    rcases List.mem_cons.mp h with rfl | h
    · exact ⟨List.mem_cons_self, fun k hk => List.mem_of_mem_take hk, List.length_take_le' _ _⟩
    · obtain ⟨hmem, hsub, hlen⟩ := ih h
      refine ⟨List.mem_cons_of_mem _ hmem, fun k hk => List.mem_of_mem_drop (hsub k hk), ?_⟩
      rw [List.length_drop] at hlen
      omega

theorem labelFrames_surj {fs : List (List UInt8)} (origins : List Nat) {f : List UInt8}
    (h : f ∈ fs) : ∃ g ∈ labelFrames fs origins, g.bytes = f := by
  induction fs generalizing origins with
  | nil => exact absurd h List.not_mem_nil
  | cons f' fs ih =>
    rcases List.mem_cons.mp h with rfl | h
    · exact ⟨_, List.mem_cons_self, rfl⟩
    · obtain ⟨g, hg, rfl⟩ := ih (origins.drop (qosFormat.frameLen f')) h
      exact ⟨g, List.mem_cons_of_mem _ hg, rfl⟩

/-- Frames that lie in one datagram are labelled with it. -/
theorem labelFrames_from {k : Nat} {fs : List (List UInt8)} {n : Nat}
    (hfs : ∀ f ∈ fs, qosFormat.IsFrame f) (hn : fs.flatten.length ≤ n) :
    ∀ g ∈ labelFrames fs (List.replicate n k), g.From k := by
  induction fs generalizing n with
  | nil => exact fun g hg => absurd hg List.not_mem_nil
  | cons f fs ih =>
    intro g hg
    have hf := (hfs f List.mem_cons_self).2
    rw [List.flatten_cons, List.length_append] at hn
    rcases List.mem_cons.mp hg with rfl | hg
    · show (List.replicate n k).take _ = _
      rw [List.take_replicate, Nat.min_eq_left (by omega)]
    · rw [List.drop_replicate] at hg
      exact ih (fun x hx => hfs x (List.mem_cons_of_mem _ hx)) (by omega) g hg

/-- A label that reaches over the end of `a` into `k`s is not all of one kind, if `k` is new. -/
theorem take_mixed {a : List Nat} {m k x L : Nat} (ha : a ≠ []) (hnew : ∀ j ∈ a, j < k)
    (hlong : a.length < L) (hm : 0 < m) :
    (a ++ List.replicate m k).take L ≠ List.replicate L x := by
  intro h
  rw [List.take_append, List.take_of_length_le (Nat.le_of_lt hlong), List.take_replicate] at h
  have hall : ∀ j ∈ a ++ List.replicate (min (L - a.length) m) k, j = x := by
    rw [h]
    exact fun j hj => List.eq_of_mem_replicate hj
  obtain ⟨j, hj⟩ := List.exists_mem_of_ne_nil a ha
  have hjx := hall j (List.mem_append_left _ hj)
  have hkx := hall k (List.mem_append_right _ (List.mem_replicate.mpr ⟨by omega, rfl⟩))
  have := hnew j hj
  omega

namespace UdpClient

/-! ## The property and the condition -/

structure KeepsBoundaries (c : UdpClient) : Prop where
  /-- A datagram that is one whole package is processed as that package. -/
  passed : ∀ k d, c.arrived[k]? = some d → qosFormat.IsFrame d →
    ∃ f ∈ c.processed, f.bytes = d ∧ f.From k
  /-- What is processed is a frame of one datagram. -/
  unmixed : ∀ f ∈ c.processed, ∃ k, f.From k

/--
The datagram `d` does no harm, and none is done to it.

With nothing in the buffer a package has to fit in it, and the datagram must not go on with a
header that overflows. With bytes in the buffer, or with the client gone, it must not be a package,
and the bytes must not become one with it.
-/
def HarmlessAt (c : UdpClient) (d : List UInt8) : Prop :=
  if c.fate ≠ .running then ¬qosFormat.IsFrame d
  else if c.leftover = [] then
    (qosFormat.IsFrame d → d.length ≤ RECV_BUFFER_LEN) ∧
      ¬Overflows (cut qosFormat (c.inHand d)).2
  else ¬qosFormat.IsFrame d ∧ ¬Accepted (c.inHand d)

/-- Every datagram that the event brings is harmless. -/
def Harmless (c : UdpClient) : Event → Prop
  | .input call _ => ∀ d, call.final = .ok d → c.HarmlessAt d
  | _ => True

/-! ## The invariant -/

/-- All went well so far, and no package waits in the buffer. -/
structure Sound (c : UdpClient) : Prop where
  keeps : c.KeepsBoundaries
  client : c.conn.mode = .client
  origins_length : c.origins.length = c.leftover.length
  origins_lt : ∀ k ∈ c.origins, k < c.arrived.length
  processed_lt : ∀ f ∈ c.processed, ∀ k ∈ f.origins, k < c.arrived.length
  rest : c.fate = .running → ¬Accepted c.leftover

variable {c c' : UdpClient} {d : List UInt8}

theorem start_sound (bandwidth : Int) (recvBuff : RecvBuffer) (stale : UInt32) (fd add : Int)
    (eh : Nat) : (start bandwidth recvBuff stale fd add eh).Sound where
  keeps := ⟨fun k d hd => by simp [start] at hd, fun f hf => absurd hf List.not_mem_nil⟩
  client := rfl
  origins_length := by
    rw [leftover, NwcConnection.leftover_length]
    rfl
  origins_lt := fun k hk => absurd hk List.not_mem_nil
  processed_lt := fun f hf => absurd hf List.not_mem_nil
  rest := fun _ => by
    have hnil : (start bandwidth recvBuff stale fd add eh).leftover = [] := by
      rw [← List.length_eq_zero_iff, leftover, NwcConnection.leftover_length]
      rfl
    rw [hnil]
    decide

/-- Sending and the statistics change nothing of it. -/
theorem Sound.same (h : c.Sound) (hs : SameReceived c c') (hf : c.fate = .running) :
    c'.Sound where
  keeps := by
    refine ⟨?_, ?_⟩
    · rw [hs.arrived, hs.processed]
      exact h.keeps.passed
    · rw [hs.processed]
      exact h.keeps.unmixed
  client := hs.mode.trans h.client
  origins_length := by
    rw [hs.origins, leftover, hs.leftover]
    exact h.origins_length
  origins_lt := by
    rw [hs.origins, hs.arrived]
    exact h.origins_lt
  processed_lt := by
    rw [hs.processed, hs.arrived]
    exact h.processed_lt
  rest := fun _ => by
    rw [leftover, hs.leftover]
    exact h.rest hf

/-- Nothing processed so far is of the datagram that comes next. -/
theorem Sound.not_from_next (h : c.Sound) {f : LabelledFrame} (hf : f ∈ c.processed) :
    ¬f.From c.arrived.length := by
  intro hfrom
  have hmem : c.arrived.length ∈ f.origins := by
    rw [hfrom]
    exact List.mem_replicate.mpr ⟨Nat.ne_of_gt (frameLen_pos f.bytes), rfl⟩
  exact Nat.lt_irrefl _ (h.processed_lt f hf _ hmem)

/-- Bytes in which no package is found are kept as they are. -/
theorem cut_of_not_accepted {l : List UInt8} (h : ¬Accepted l) : cut qosFormat l = ([], l) :=
  cut_incomplete fun hc => h (Or.inl hc)

theorem inHand_length_le : (c.inHand d).length ≤ RECV_BUFFER_LEN := by
  have hle := c.conn.rbytes_le
  have htake : (d.take c.conn.recvRequest).length ≤ c.conn.recvRequest := List.length_take_le _ _
  rw [NwcConnection.recvRequest] at htake
  rw [inHand, List.length_append, NwcConnection.leftover_length, NwcConnection.recvRequest]
  omega

theorem Sound.inHandOrigins_length (h : c.Sound) :
    (c.inHandOrigins d).length = (c.inHand d).length := by
  rw [inHandOrigins, inHand, List.length_append, List.length_append, List.length_replicate,
    h.origins_length]
  rfl

theorem Sound.inHandOrigins_lt (h : c.Sound) :
    ∀ k ∈ c.inHandOrigins d, k < c.arrived.length + 1 := by
  intro k hk
  rcases List.mem_append.mp hk with hk | hk
  · exact Nat.lt_succ_of_lt (h.origins_lt k hk)
  · rw [List.eq_of_mem_replicate hk]
    exact Nat.lt_succ_self _

/-- The last of the datagrams, or one before. -/
theorem arrived_concat {l : List (List UInt8)} {k : Nat} {d' : List UInt8}
    (h : (l ++ [d])[k]? = some d') : l[k]? = some d' ∨ (k = l.length ∧ d' = d) := by
  rcases Nat.lt_or_ge k l.length with hk | hk
  · rw [List.getElem?_append_left hk] at h
    exact Or.inl h
  · rw [List.getElem?_append_right hk, List.getElem?_singleton] at h
    split at h
    · next h0 => exact Or.inr ⟨by omega, (Option.some.inj h).symm⟩
    · cases h

/-! ## What harmless datagrams do -/

/-- A datagram that is no package is not missed by a client that is gone. -/
theorem Sound.unread {x : UdpClient} (h : c.Sound) (hs : SameReceived c x)
    (hx : x.fate ≠ .running) (hd : ¬qosFormat.IsFrame d) :
    Sound { x with arrived := c.arrived ++ [d] } where
  keeps := by
    refine ⟨fun k d' hd' hf => ?_, ?_⟩
    · show ∃ f ∈ x.processed, _
      rw [hs.processed]
      rcases arrived_concat hd' with hold | ⟨-, rfl⟩
      · exact h.keeps.passed k d' hold hf
      · exact absurd hf hd
    · show ∀ f ∈ x.processed, _
      rw [hs.processed]
      exact h.keeps.unmixed
  client := hs.mode.trans h.client
  origins_length := by
    show x.origins.length = x.conn.leftover.length
    rw [hs.origins, hs.leftover]
    exact h.origins_length
  origins_lt := by
    show ∀ k ∈ x.origins, k < (c.arrived ++ [d]).length
    rw [hs.origins, List.length_append]
    exact fun k hk => Nat.lt_add_right _ (h.origins_lt k hk)
  processed_lt := by
    show ∀ f ∈ x.processed, ∀ k ∈ f.origins, k < (c.arrived ++ [d]).length
    rw [hs.processed, List.length_append]
    exact fun f hf k hk => Nat.lt_add_right _ (h.processed_lt f hf k hk)
  rest := fun hrun => absurd hrun hx

variable {fs : List (List UInt8)} {rest : List UInt8} {t : Session}

/-- The frames that a harmless datagram is cut into are its own. -/
theorem Sound.labels (h : c.Sound) (hf : c.fate = .running) (hgood : c.HarmlessAt d)
    (hcut : cut qosFormat (c.inHand d) = (fs, rest)) :
    (∀ g ∈ labelFrames fs (c.inHandOrigins d), g.From c.arrived.length) ∧
      (qosFormat.IsFrame d → d ∈ fs) := by
  rw [HarmlessAt, if_neg (not_not_intro hf)] at hgood
  by_cases hl : c.leftover = []
  · rw [if_pos hl] at hgood
    have hnil : c.origins = [] := by
      rw [← List.length_eq_zero_iff, h.origins_length, hl, List.length_nil]
    have hparsed := cut_parsed (F := qosFormat) (c.inHand d)
    rw [hcut] at hparsed
    have hlen := congrArg List.length hparsed.eq
    rw [← h.inHandOrigins_length, inHandOrigins, hnil, List.nil_append, List.length_replicate,
      List.length_append] at hlen
    dsimp only at hlen
    refine ⟨?_, fun hframe => ?_⟩
    · rw [inHandOrigins, hnil, List.nil_append]
      exact labelFrames_from hparsed.frames (by omega)
    · rw [cut_inHand_package hl hframe (hgood.1 hframe)] at hcut
      rw [← (Prod.mk.inj hcut).1]
      exact List.mem_cons_self
  · rw [if_neg hl] at hgood
    rw [cut_of_not_accepted hgood.2] at hcut
    rw [← (Prod.mk.inj hcut).1]
    exact ⟨fun g hg => absurd hg List.not_mem_nil, fun hframe => absurd hframe hgood.1⟩

theorem Sound.parsed (h : c.Sound) (hf : c.fate = .running) (hgood : c.HarmlessAt d)
    (hcut : cut qosFormat (c.inHand d) = (fs, rest)) (hmode : t.conn.mode = .client)
    (hleft : t.conn.leftover = rest) (hhanded : t.handed = fs) (hno : ¬Overflows rest) :
    Sound { c.received (c.inHandOrigins d) .running t with arrived := c.arrived ++ [d] } where
  keeps := by
    obtain ⟨hfrom, hown⟩ := h.labels hf hgood hcut
    refine ⟨fun k d' hd' hframe => ?_, fun g hg => ?_⟩
    · show ∃ f ∈ c.processed ++ labelFrames t.handed (c.inHandOrigins d), _
      rcases arrived_concat hd' with hold | ⟨rfl, rfl⟩
      · obtain ⟨f, hmem, hf'⟩ := h.keeps.passed k d' hold hframe
        exact ⟨f, List.mem_append_left _ hmem, hf'⟩
      · obtain ⟨g, hg, hgd⟩ := labelFrames_surj (c.inHandOrigins d') (hown hframe)
        rw [hhanded]
        exact ⟨g, List.mem_append_right _ hg, hgd, hfrom g hg⟩
    · rcases List.mem_append.mp hg with hg | hg
      · exact h.keeps.unmixed g hg
      · rw [hhanded] at hg
        exact ⟨_, hfrom g hg⟩
  client := hmode
  origins_length := by
    have hsplit := congrArg List.length (cut_parsed (F := qosFormat) (c.inHand d)).eq
    rw [hcut, List.length_append] at hsplit
    show ((c.inHandOrigins d).drop _).length = t.conn.leftover.length
    rw [List.length_drop, h.inHandOrigins_length, ← NwcConnection.leftover_length, hleft]
    dsimp only at hsplit
    omega
  origins_lt := by
    show ∀ k ∈ (c.inHandOrigins d).drop _, k < (c.arrived ++ [d]).length
    rw [List.length_append]
    exact fun k hk => h.inHandOrigins_lt k (List.mem_of_mem_drop hk)
  processed_lt := by
    show ∀ f ∈ c.processed ++ _, ∀ k ∈ f.origins, k < (c.arrived ++ [d]).length
    rw [List.length_append]
    intro f hmem k hk
    rcases List.mem_append.mp hmem with hmem | hmem
    · exact Nat.lt_add_right _ (h.processed_lt f hmem k hk)
    · exact h.inHandOrigins_lt k ((labelFrames_mem hmem).2.1 k hk)
  rest := fun _ => by
    have hrest := (cut_parsed (F := qosFormat) (c.inHand d)).rest
    rw [hcut] at hrest
    show ¬Accepted t.conn.leftover
    rw [hleft]
    rintro (hc | ho)
    · exact hrest hc
    · exact hno ho

/-- Without a datagram there is nothing to do. -/
theorem Sound.nothing {x : UdpClient} (h : c.Sound) (hs : SameReceived c x)
    (hf : c.fate = .running) : Sound { x with arrived := c.arrived ++ [] } := by
  rw [List.append_nil]
  exact h.same ⟨hs.mode, hs.leftover, rfl, hs.origins, hs.processed⟩ hf

/-- A harmless datagram that overflows finds nothing in the buffer, and then it is not harmless. -/
theorem HarmlessAt.not_overflows (hgood : c.HarmlessAt d) (hf : c.fate = .running)
    (hcut : cut qosFormat (c.inHand d) = (fs, rest)) : ¬Overflows rest := by
  rw [HarmlessAt, if_neg (not_not_intro hf)] at hgood
  split at hgood
  · rw [hcut] at hgood
    exact hgood.2
  · rw [cut_of_not_accepted hgood.2] at hcut
    rw [← (Prod.mk.inj hcut).2]
    exact fun ho => hgood.2 (Or.inr ho)

/-- A datagram of which nothing can be read is no package, if it is harmless. -/
theorem HarmlessAt.not_isFrame (hgood : c.HarmlessAt d) (hf : c.fate = .running)
    (hempty : d.take c.conn.recvRequest = []) : ¬qosFormat.IsFrame d := by
  rw [HarmlessAt, if_neg (not_not_intro hf)] at hgood
  split at hgood
  · next hl =>
    have hall := inHand_of_leftover_nil (d := d) hl
    have hnil : c.inHand d = [] := by
      show c.leftover ++ _ = []
      rw [hempty, hl]
      rfl
    rw [hnil] at hall
    intro hframe
    rw [List.take_of_length_le (hgood.1 hframe)] at hall
    rw [← hall] at hframe
    exact absurd hframe (by decide)
  · exact hgood.1

/-- **A harmless event keeps all well.** -/
theorem Sound.step (h : c.Sound) {e : Event} (hgood : c.Harmless e)
    (hstep : c.step e = some c') : c'.Sound := by
  rcases step_cases hstep with
    ⟨call, recvTs, rfl, ⟨hf, x, hx, rfl⟩ | ⟨hf, rfl⟩⟩ | ⟨-, hf, hs⟩
  · rcases onRecv_cases h.client call recvTs with ⟨errno, hfin, hout | hout⟩ |
      ⟨d, hfin, hempty, hout⟩ |
      ⟨d, fs, rest, t, hfin, -, hcut, hmode, ⟨hno, hleft, hhanded, -, hout⟩ | ⟨ho, -⟩⟩
    · rw [hout] at hx
      cases hx
      rw [datagramOf, hfin]
      exact h.nothing (SameReceived.refl c) hf
    · rw [hout] at hx
      cases hx
      rw [datagramOf, hfin]
      exact h.nothing ⟨rfl, rfl, rfl, rfl, rfl⟩ hf
    · rw [hout] at hx
      cases hx
      rw [datagramOf, hfin]
      exact h.unread ⟨rfl, rfl, rfl, rfl, rfl⟩ (fun hc => ClientFate.noConfusion hc)
        ((hgood d hfin).not_isFrame hf hempty)
    · rw [hout] at hx
      cases hx
      rw [datagramOf, hfin]
      exact h.parsed hf (hgood d hfin) hcut hmode hleft hhanded hno
    · exact absurd ho ((hgood d hfin).not_overflows hf hcut)
  · rcases hfin : call.final with errno | d
    · rw [datagramOf, hfin]
      show Sound { c with arrived := c.arrived ++ [] }
      rw [List.append_nil]
      exact h
    · have hnot := hgood d hfin
      rw [HarmlessAt, if_pos hf] at hnot
      rw [datagramOf, hfin]
      exact h.unread (SameReceived.refl c) hf hnot
  · exact h.same hs hf

/-! ## What the other datagrams do -/

/-- A package is missed when nothing is processed that could be it. -/
theorem Sound.missed {x : UdpClient} (h : c.Sound) (hframe : qosFormat.IsFrame d)
    (harrived : x.arrived = c.arrived ++ [d])
    (hproc : ∀ g ∈ x.processed, g ∈ c.processed ∨ g.bytes ≠ d) : ¬x.KeepsBoundaries := by
  intro hkeeps
  have hlast : x.arrived[c.arrived.length]? = some d := by
    rw [harrived, List.getElem?_append_right (Nat.le_refl _), Nat.sub_self]
    rfl
  obtain ⟨g, hg, hgd, hfrom⟩ := hkeeps.passed _ d hlast hframe
  rcases hproc g hg with hold | hne
  · exact h.not_from_next hold hfrom
  · exact hne hgd

/-- A frame longer than all there is lies in no datagram. -/
theorem Sound.not_from_of_overflow (h : c.Sound) {f : List UInt8}
    (hlong : 4294967296 ≤ qosFormat.frameLen f) {g : LabelledFrame}
    (hg : g ∈ labelFrames fs (c.inHandOrigins d)) (hgf : g.bytes = f) (k : Nat) : ¬g.From k := by
  intro hfrom
  have hlen := (labelFrames_mem hg).2.2
  have hle := inHand_length_le (c := c) (d := d)
  rw [hfrom, List.length_replicate, h.inHandOrigins_length, hgf] at hlen
  unfold RECV_BUFFER_LEN at hle
  omega

/-- A frame that starts in what was left over ends in the new datagram. -/
theorem Sound.leftover_lt (h : c.Sound) (hf : c.fate = .running) :
    c.leftover.length < qosFormat.frameLen (c.inHand d) := by
  by_contra hge
  refine h.rest hf (Or.inl ?_)
  have hhdr : qosFormat.hdrLen ≤ c.leftover.length := by
    have : qosFormat.hdrLen ≤ qosFormat.frameLen (c.inHand d) := Nat.le_add_right _ _
    omega
  have hlen : qosFormat.frameLen (c.inHand d) = qosFormat.frameLen c.leftover :=
    frameLen_append hhdr _
  rw [hlen] at hge
  exact ⟨hhdr, by omega⟩

/-- The first frame made of bytes left over and new ones is a mixed one. -/
theorem Sound.mixes (h : c.Sound) (hf : c.fate = .running) (hl : c.leftover ≠ [])
    (hread : d.take c.conn.recvRequest ≠ []) (hc : qosFormat.Complete (c.inHand d))
    (hcut : cut qosFormat (c.inHand d) = (fs, rest)) :
    ∃ g ∈ labelFrames fs (c.inHandOrigins d), ∀ k, ¬g.From k := by
  rw [cut_complete hc] at hcut
  rw [← (Prod.mk.inj hcut).1]
  refine ⟨_, List.mem_cons_self, fun k => ?_⟩
  have hlen : qosFormat.frameLen ((c.inHand d).take (qosFormat.frameLen (c.inHand d)))
      = qosFormat.frameLen (c.inHand d) := by
    rw [← hc.isFrame_take.2, List.length_take, Nat.min_eq_left hc.2]
  unfold LabelledFrame.From
  rw [hlen]
  have hne : c.origins ≠ [] := by
    rw [← List.length_pos_iff, h.origins_length, List.length_pos_iff]
    exact hl
  refine take_mixed hne h.origins_lt ?_ (List.length_pos_iff.mpr hread)
  rw [h.origins_length]
  exact h.leftover_lt hf

/-- What is read with bytes in the buffer, and completes a package, breaks the boundaries. -/
theorem Sound.parsed_breaks (h : c.Sound) (hf : c.fate = .running) (hl : c.leftover ≠ [])
    (hread : d.take c.conn.recvRequest ≠ []) (hcut : cut qosFormat (c.inHand d) = (fs, rest))
    (hno : ¬Overflows rest) (ha : Accepted (c.inHand d)) :
    ∃ g ∈ labelFrames fs (c.inHandOrigins d), ∀ k, ¬g.From k := by
  rcases ha with hc | ho
  · exact h.mixes hf hl hread hc hcut
  · exfalso
    -- a header that overflows is no complete package, so it is the rest
    have hnc : ¬qosFormat.Complete (c.inHand d) := by
      intro hc
      have hle := inHand_length_le (c := c) (d := d)
      have hshort := hc.2
      have hlong := ho.2
      unfold RECV_BUFFER_LEN at hle
      omega
    rw [cut_incomplete hnc] at hcut
    rw [← (Prod.mk.inj hcut).2] at hno
    exact hno ho

/-- A frame of what is read is not longer than the receive buffer. -/
theorem length_le_of_mem_cut {f : List UInt8} (hcut : cut qosFormat (c.inHand d) = (fs, rest))
    (hf : f ∈ fs) : f.length ≤ RECV_BUFFER_LEN := by
  have heq := (cut_parsed (F := qosFormat) (c.inHand d)).eq
  rw [hcut] at heq
  have hsub : f.length ≤ fs.flatten.length := (List.sublist_flatten_of_mem hf).length_le
  have hle := inHand_length_le (c := c) (d := d)
  rw [heq, List.length_append] at hle
  exact Nat.le_trans hsub (Nat.le_trans (Nat.le_add_right _ _) hle)

/-- A datagram of which nothing can be read does harm only if it is a package. -/
theorem Sound.isFrame_of_empty (h : c.Sound) (hf : c.fate = .running) (hbad : ¬c.HarmlessAt d)
    (hempty : d.take c.conn.recvRequest = []) : qosFormat.IsFrame d := by
  by_contra hnot
  have hall : c.inHand d = c.leftover := by
    show c.leftover ++ _ = _
    rw [hempty, List.append_nil]
  refine hbad ?_
  rw [HarmlessAt, if_neg (not_not_intro hf), hall]
  split
  · next hl =>
    rw [hl, cut_incomplete (by decide)]
    exact ⟨fun hframe => absurd hframe hnot, by decide⟩
  · exact ⟨hnot, h.rest hf⟩

/-- What is read with nothing overflowing, and yet does harm. -/
theorem Sound.parsed_harm (h : c.Sound) (hf : c.fate = .running) (hbad : ¬c.HarmlessAt d)
    (hread : d.take c.conn.recvRequest ≠ []) (hcut : cut qosFormat (c.inHand d) = (fs, rest))
    (hno : ¬Overflows rest) :
    (qosFormat.IsFrame d ∧ d ∉ fs) ∨
      ∃ g ∈ labelFrames fs (c.inHandOrigins d), ∀ k, ¬g.From k := by
  rw [HarmlessAt, if_neg (not_not_intro hf)] at hbad
  by_cases hl : c.leftover = []
  · rw [if_pos hl, hcut] at hbad
    -- the package is cut off at the end of the buffer
    refine Or.inl ?_
    by_cases hframe : qosFormat.IsFrame d
    · refine ⟨hframe, fun hmem => hbad ⟨fun _ => length_le_of_mem_cut hcut hmem, hno⟩⟩
    · exact absurd ⟨fun hframe' => absurd hframe' hframe, hno⟩ hbad
  · rw [if_neg hl] at hbad
    by_cases ha : Accepted (c.inHand d)
    · exact Or.inr (h.parsed_breaks hf hl hread hcut hno ha)
    · rw [cut_of_not_accepted ha] at hcut
      rw [← (Prod.mk.inj hcut).1]
      by_cases hframe : qosFormat.IsFrame d
      · exact Or.inl ⟨hframe, List.not_mem_nil⟩
      · exact absurd ⟨hframe, ha⟩ hbad

/-- **A datagram that is not harmless breaks the boundaries.** -/
theorem Sound.breaks (h : c.Sound) {call : SysCall (List UInt8)} {recvTs : UInt32}
    (hfin : call.final = .ok d) (hbad : ¬c.HarmlessAt d)
    (hstep : c.step (.input call recvTs) = some c') : ¬c'.KeepsBoundaries := by
  have harrived : datagramOf call = [d] := by rw [datagramOf, hfin]
  rcases step_cases hstep with
    ⟨_, _, hev, ⟨hf, x, hx, rfl⟩ | ⟨hf, rfl⟩⟩ | ⟨hne, -⟩
  · cases hev
    rw [harrived]
    rcases onRecv_cases h.client call recvTs with ⟨errno, hfin', -⟩ | ⟨d', hfin', hempty, hout⟩ |
      ⟨d', fs, rest, t, hfin', hread, hcut, -,
        ⟨hno, -, hhanded, -, hout⟩ | ⟨ho, ⟨f, hhanded, hlen⟩, hout⟩⟩
    · rw [hfin] at hfin'
      cases hfin'
    · rw [hfin] at hfin'
      cases hfin'
      rw [hout] at hx
      cases hx
      exact h.missed (h.isFrame_of_empty hf hbad hempty) rfl fun g hg => Or.inl hg
    · rw [hfin] at hfin'
      cases hfin'
      rw [hout] at hx
      cases hx
      rcases h.parsed_harm hf hbad hread hcut hno with ⟨hframe, hmem⟩ | ⟨g, hg, hnone⟩
      · refine h.missed hframe rfl fun g hg => ?_
        rcases List.mem_append.mp hg with hg | hg
        · exact Or.inl hg
        · rw [hhanded] at hg
          refine Or.inr fun hgd => hmem ?_
          rw [← hgd]
          exact (labelFrames_mem hg).1
      · rw [← hhanded] at hg
        intro hkeeps
        obtain ⟨k, hk⟩ := hkeeps.unmixed g (List.mem_append_right _ hg)
        exact hnone k hk
    · rw [hfin] at hfin'
      cases hfin'
      rw [hout] at hx
      cases hx
      -- the overflowing frame is longer than the buffer
      have hlong : 4294967296 ≤ qosFormat.frameLen f := by
        rw [hlen]
        exact ho.2
      have hlast : f ∈ t.handed := by
        rw [hhanded]
        exact List.mem_append_right _ List.mem_cons_self
      obtain ⟨g, hg, hgf⟩ := labelFrames_surj (c.inHandOrigins d) hlast
      intro hkeeps
      obtain ⟨k, hk⟩ := hkeeps.unmixed g (List.mem_append_right _ hg)
      exact h.not_from_of_overflow hlong hg hgf k hk
  · cases hev
    rw [HarmlessAt, if_pos hf] at hbad
    rw [harrived]
    exact h.missed (not_not.mp hbad) rfl fun g hg => Or.inl hg
  · exact absurd rfl (hne call recvTs)

/-! ## Runs -/

/--
**When a UDP client keeps datagram boundaries.**

Whatever arrives, and whatever the workers do in between: every datagram that is one package has
been processed as that package and no frame is made of more than one datagram, all along the run,
exactly when every datagram of the run arrives harmless.
-/
theorem keepsBoundaries_iff (bandwidth : Int) (recvBuff : RecvBuffer) (stale : UInt32)
    (fd add : Int) (eh : Nat) (events : List Event) (c : UdpClient)
    (hrun : replay step (start bandwidth recvBuff stale fd add eh) events = some c) :
    (∀ t, Visits step (start bandwidth recvBuff stale fd add eh) events t →
        t.KeepsBoundaries) ↔
      Along step (start bandwidth recvBuff stale fd add eh) events Harmless := by
  refine exact_rule (fun _ h => h.keeps) (fun _ _ _ h hg hs => h.step hg hs)
    (fun s e t h hbad hs => ?_) (start_sound bandwidth recvBuff stale fd add eh) hrun
  cases e with
  | input call recvTs =>
    have hex : ∃ d, call.final = .ok d ∧ ¬s.HarmlessAt d := by
      by_contra hnone
      refine hbad fun d hd => ?_
      by_contra hd'
      exact hnone ⟨d, hd, hd'⟩
    obtain ⟨d, hfin, hharm⟩ := hex
    exact h.breaks hfin hharm hs
  | output envs => exact absurd trivial hbad
  | tick envs => exact absurd trivial hbad
  | stat now => exact absurd trivial hbad

/-- With nothing in the buffer a package that fits in it does no harm. -/
theorem harmlessAt_of_package (hf : c.fate = .running) (hl : c.leftover = [])
    (hframe : qosFormat.IsFrame d) (hfits : d.length ≤ RECV_BUFFER_LEN) : c.HarmlessAt d := by
  rw [HarmlessAt, if_neg (not_not_intro hf), if_pos hl, cut_inHand_package hl hframe hfits]
  exact ⟨fun _ => hfits, show ¬Overflows [] by decide⟩

/-- A client with default bandwidth, in a zeroed buffer. -/
def sample : UdpClient := start 0 RecvBuffer.zero 0 3 0 0

/-- The ack of a package that was sent at `ackTs`. -/
def ackDatagram (ackTs : UInt32) : List UInt8 := (nwcQosCreateAckPackage ackTs 0).bytes

/-- Two acks, one after the other. -/
theorem twoAcks_keepsBoundaries : ∃ c,
    replay step sample [.input (.done (ackDatagram 7)) 9, .input (.done (ackDatagram 8)) 9]
        = some c ∧ c.KeepsBoundaries := by
  obtain ⟨c, hc⟩ := Option.isSome_iff_exists.mp
    (show (replay step sample
      [.input (.done (ackDatagram 7)) 9, .input (.done (ackDatagram 8)) 9]).isSome by
        decide +kernel)
  refine ⟨c, hc, (keepsBoundaries_iff 0 RecvBuffer.zero 0 3 0 0 _ c hc).mpr ?_ c
    ⟨_, List.prefix_rfl, hc⟩⟩
  have hview : (step sample (.input (.done (ackDatagram 7)) 9)).map
      (fun t => (t.fate, t.leftover)) = some (.running, []) := by decide +kernel
  obtain ⟨s, hs, hrest⟩ := replay_cons.mp hc
  obtain ⟨t, ht, -⟩ := replay_cons.mp hrest
  rw [hs] at hview
  obtain ⟨hfate, hleft⟩ := Prod.mk.inj (Option.some.inj hview)
  refine (along_cons hs).mpr ⟨fun d hd => ?_, (along_cons ht).mpr ⟨fun d hd => ?_,
    along_nil _ _⟩⟩
  · cases hd
    exact harmlessAt_of_package rfl (by decide +kernel) (by decide) (by decide)
  · cases hd
    exact harmlessAt_of_package hfate hleft (by decide) (by decide)

/-- A datagram of ten bytes, and then an ack that is not recognised any more. -/
theorem truncated_breaksBoundaries : ∃ c,
    replay step sample
        [.input (.done (List.replicate 10 0)) 9, .input (.done (ackDatagram 7)) 9] = some c ∧
      ¬c.KeepsBoundaries := by
  obtain ⟨c, hc⟩ := Option.isSome_iff_exists.mp
    (show (replay step sample
      [.input (.done (List.replicate 10 0)) 9, .input (.done (ackDatagram 7)) 9]).isSome by
        decide +kernel)
  have hview : (replay step sample
      [.input (.done (List.replicate 10 0)) 9, .input (.done (ackDatagram 7)) 9]).map
        (fun c => (c.arrived[1]?, c.processed)) = some (some (ackDatagram 7), []) := by
    decide +kernel
  rw [hc] at hview
  obtain ⟨hack, hnone⟩ := Prod.mk.inj (Option.some.inj hview)
  refine ⟨c, hc, fun hkeeps => ?_⟩
  obtain ⟨f, hf, -⟩ := hkeeps.passed 1 _ hack (by decide)
  rw [hnone] at hf
  exact absurd hf List.not_mem_nil

end UdpClient

end Nwchecker
