import Nwchecker.Nonblock.Requests

/-!
# Responses

What `sendData` writes stays framed, whatever part of the buffer each `write` takes
(`responses_framed`): the buffer holds the rest of the response under way, and is back at its start
when there is none.

But a response is begun whenever `sendData` is called with none under way: for a read that completes
no request, and for a writable key that was registered for a response which has been sent since. The
responses stay behind the requests as long as neither happens (`responses_le_requests`).
-/

namespace Nwchecker.Nonblock

open Buffers Framing Java Machine Words

namespace Client

variable {L : Nat} {c d : Client}

/-- `d` has sent what `c` has. -/
structure SendSame (c d : Client) : Prop where
  sendBuff : d.sendBuff = c.sendBuff
  canSend : d.canSend = c.canSend
  responses : d.responses = c.responses
  written : d.written = c.written

/-- What `write` does in the event. -/
def Event.write : Event L → WriteResult
  | .readable _ _ w | .writable _ w => w

/-- An event closes the channel, or ends with `sendData`. -/
theorem handle_sends {e : Event L} (he : c.Reports e) (h : c.handle e = .ok d) :
    (e.sends = false ∧ d = c.closed) ∨
      ∃ c', SendSame c c' ∧ c'.sk.valid = true ∧ c'.sendData e.text e.write = .ok d := by
  cases e with
  | readable r resp w =>
    obtain ⟨hvalid, -, -⟩ := he
    cases r with
    | data bytes =>
      right
      show ∃ c', SendSame c c' ∧ c'.sk.valid = true ∧ c'.sendData resp.text w = .ok d
      by_cases hnil : bytes = []
      · refine ⟨c, ⟨rfl, rfl, rfl, rfl⟩, hvalid, ?_⟩
        cases hsend : c.sendData resp.text w with
        | error x => simp [handle, onReadable, recvData, hnil, hsend, Except.map] at h
        | ok d' => simpa [handle, onReadable, recvData, hnil, hsend, Except.map] using h
      · cases hdec : c.decodeAll bytes with
        | error x => simp [handle, onReadable, recvData, hnil, hdec, Except.map] at h
        | ok r =>
          obtain ⟨rc, c'⟩ := r
          obtain ⟨rfl, hsame, hsk⟩ : rc = 0 ∧ SendSame c c' ∧ c'.sk = c.sk := by
            unfold decodeAll at hdec
            split at hdec
            · cases hdec
            · split at hdec
              · cases hdec
              · cases hdec
                exact ⟨rfl, ⟨rfl, rfl, rfl, rfl⟩, rfl⟩
          refine ⟨c', hsame, by rw [hsk, hvalid], ?_⟩
          cases hsend : c'.sendData resp.text w with
          | error x => simp [handle, onReadable, recvData, hnil, hdec, hsend, Except.map] at h
          | ok d' => simpa [handle, onReadable, recvData, hnil, hdec, hsend, Except.map] using h
    | endOfStream =>
      left
      rw [handle, onReadable_ends hvalid (Or.inl rfl)] at h
      cases h
      exact ⟨rfl, rfl⟩
    | failed =>
      left
      rw [handle, onReadable_ends hvalid (Or.inr rfl)] at h
      cases h
      exact ⟨rfl, rfl⟩
  | writable resp w =>
    right
    simp only [handle, onWritable, cancelEvent, updateOps_valid he.1] at h
    exact ⟨{ c with sk := { c.sk with ops := c.sk.ops.cancel OP_WRITE } }, ⟨rfl, rfl, rfl, rfl⟩,
      he.1, h⟩

/-! ## Partial writes -/

/-- What is left of the response under way. -/
def unsent (c : Client) : List UInt8 := if c.canSend then [] else c.sendBuff.ahead

/-- The channel has taken the responses in order, up to what is left of the last one. -/
structure Framed (L : Nat) (c : Client) : Prop where
  sizes : ∀ r ∈ c.responses, r.length = L
  complete : c.written ++ c.unsent = (c.responses.map frame).flatten

theorem Framed.of_same (hc : c.Framed L) (h : SendSame c d) : d.Framed L where
  sizes := by
    rw [h.responses]
    exact hc.sizes
  complete := by
    rw [h.written, h.responses, unsent, h.canSend, h.sendBuff]
    exact hc.complete

/-- The key asks for a writable channel while a response is under way. -/
def Armed (c : Client) : Prop :=
  ∀ ops, c.sk.interestOps = .ok ops → c.canSend = false → ops.write = true

theorem Loaded.framed {resp : List UInt8} (h : Loaded c resp d) (hc : c.Framed L)
    (hresp : resp.length = L) : (∀ r ∈ d.responses, r.length = L) ∧
      d.written ++ d.sendBuff.ahead = (d.responses.map frame).flatten := by
  have hcomplete := hc.complete
  by_cases hcan : c.canSend = true
  · have hahead := h.ahead
    have hresponses := h.responses
    rw [if_pos hcan] at hahead hresponses
    rw [unsent, if_pos hcan, List.append_nil] at hcomplete
    rw [hahead, hresponses, h.written]
    refine ⟨?_, ?_⟩
    · intro r hr
      rcases List.mem_append.mp hr with hr | hr
      · exact hc.sizes r hr
      · rw [List.mem_singleton.mp hr, hresp]
    · rw [List.map_append, List.flatten_append, hcomplete]
      simp
  · have hahead := h.ahead
    have hresponses := h.responses
    rw [if_neg hcan] at hahead hresponses
    rw [unsent, if_neg hcan] at hcomplete
    rw [hahead, hresponses, h.written]
    exact ⟨hc.sizes, hcomplete⟩

/-- A `write` that takes any part of the buffer. -/
theorem Framed.sendData (hc : c.Framed L) (hs : c.SendReady L) {resp : List UInt8}
    (hresp : resp.length = L) {w : WriteResult} (hw : w ≠ .failed)
    (h : c.sendData resp w = .ok d) (hvalid : c.sk.valid = true) : d.Framed L ∧ d.Armed := by
  obtain ⟨e, hload, -, heq⟩ := sendData_eq hs hresp w
  obtain ⟨hsizes, hcomplete⟩ := hload.framed hc hresp
  have hevalid : e.sk.valid = true := by rw [hload.sk, hvalid]
  rw [heq] at h
  cases w with
  | failed => exact absurd rfl hw
  | room n =>
    by_cases hn : n < e.sendBuff.remaining
    · rw [writeBuff_short hevalid hn] at h
      cases h
      refine ⟨{ sizes := hsizes, complete := ?_ }, ?_⟩
      · show e.written ++ e.sendBuff.ahead.take n ++ (e.sendBuff.skip n).ahead = _
        rw [Buffer.skip_ahead, List.append_assoc, List.take_append_drop]
        exact hcomplete
      · intro ops hops _
        simp only [SelectionKey.interestOps, hevalid, if_true, Except.ok.injEq] at hops
        rw [← hops]
        simp [Ops.add, OP_WRITE]
    · rw [writeBuff_full (by omega)] at h
      cases h
      refine ⟨{ sizes := hsizes, complete := ?_ }, ?_⟩
      · show e.written ++ e.sendBuff.ahead ++ [] = _
        rw [List.append_nil]
        exact hcomplete
      · intro ops _ hcan
        cases hcan

theorem Event.text_length (e : Event L) : e.text.length = L := by
  cases e with
  | readable r resp w => exact resp.size
  | writable resp w => exact resp.size

theorem Framed.handle (hc : c.Framed L) (hs : c.SendReady L) {e : Event L} (he : c.Reports e)
    (hw : e.write ≠ .failed) (h : c.handle e = .ok d) : d.Framed L ∧ d.Armed := by
  rcases handle_sends he h with ⟨-, rfl⟩ | ⟨c', hsame, hvalid, hsend⟩
  · refine ⟨hc.of_same ⟨rfl, rfl, rfl, rfl⟩, ?_⟩
    intro ops hops
    cases hops
  · have hs' : c'.SendReady L := by
      refine { limit := ?_, start := ?_ }
      · rw [hsame.sendBuff]
        exact hs.limit
      · rw [hsame.sendBuff, hsame.canSend]
        exact hs.start
    exact (hc.of_same hsame).sendData hs' e.text_length hw hsend hvalid

/-- What the responses need of a client in every run. -/
structure Inv (L : Nat) (c : Client) : Prop where
  recvReady : c.RecvReady
  sendReady : c.SendReady L

/-- An event that is handled leaves a client that is ready for the next one. -/
theorem Inv.handle (hc : c.Inv L) {e : Event L} (he : c.Reports e) :
    c.handle e = .error .negativeArraySize ∨ ∃ d, c.handle e = .ok d ∧ d.Inv L := by
  rcases handle_spec hc.recvReady hc.sendReady he with
    ⟨-, d, hd, hsame, hready, -⟩ | ⟨-, -, h⟩ | ⟨-, -, d, hd, hready, hready', -⟩
  · exact Or.inr ⟨d, hd, hc.recvReady.of_same hsame, hready⟩
  · exact Or.inl h
  · exact Or.inr ⟨d, hd, hready, hready'⟩

/--
**Responses stay framed under partial writes.**

For every run in which no `write` throws: nothing overflows; what the channel has taken, followed by
what is left in the buffer, is the responses in order; and while something is left, the key asks for
a writable channel.
-/
theorem responses_framed (hL : L + 4 ≤ SEND_BUFF_LEN) (events : List (Event L))
    (hwrites : ∀ e ∈ events, e.write ≠ .failed) (t : Except RuntimeException Client)
    (hrun : replay step (.ok create) events = some t) :
    t ≠ .error .bufferOverflow ∧
      ∀ c, t = .ok c → (∀ r ∈ c.responses, r.length = L) ∧
        c.written ++ c.unsent = (c.responses.map frame).flatten ∧
        c.written <+: (c.responses.map frame).flatten ∧ c.Armed := by
  have hall : t ≠ .error .bufferOverflow ∧
      ∀ c, t = .ok c → c.Inv L ∧ c.Framed L ∧ c.Armed := by
    refine replay_invariant (P := fun t : Except RuntimeException Client =>
      t ≠ .error .bufferOverflow ∧ ∀ c, t = .ok c → c.Inv L ∧ c.Framed L ∧ c.Armed)
      ?_ hwrites ?_ hrun
    · intro s e t hw hs hstep
      cases s with
      | error x => cases hstep
      | ok c =>
        obtain ⟨hinv, hframed, -⟩ := hs.2 c rfl
        simp only [step] at hstep
        split at hstep
        · next he =>
          cases hstep
          rcases hinv.handle he with h | ⟨d, hd, hinv'⟩
          · rw [h]
            exact ⟨by simp, fun d hd => by cases hd⟩
          · rw [hd]
            refine ⟨by simp, fun d' hd' => ?_⟩
            cases hd'
            exact ⟨hinv', hframed.handle hinv.sendReady he hw hd⟩
        · cases hstep
    · refine ⟨by simp, fun c hc => ?_⟩
      cases hc
      refine ⟨⟨create_recvReady, create_sendReady hL⟩, ?_, ?_⟩
      · exact { sizes := fun r hr => absurd hr List.not_mem_nil, complete := rfl }
      · intro ops _ hcan
        cases hcan
  refine ⟨hall.1, fun c hc => ?_⟩
  obtain ⟨-, hframed, harmed⟩ := hall.2 c hc
  refine ⟨hframed.sizes, hframed.complete, ?_, harmed⟩
  rw [← hframed.complete]
  exact List.prefix_append _ _

/-- A request is answered in two parts. -/
def twoParts : List (Event 37) :=
  [.readable (.data [0, 0, 0, 0]) (Response.blank 37) (.room 10),
    .writable (Response.blank 37) (.room 100)]

theorem twoParts_framed : ∃ c, replay step (.ok create) twoParts = some (.ok c) ∧
    c.written = frame (List.replicate 37 32) ∧ c.canSend = true := by
  obtain ⟨t, ht, hok⟩ : ∃ t ∈ replay step (.ok create) twoParts,
      ∃ c ∈ t.toOption, c.canSend = true ∧ c.responses = [List.replicate 37 32] := by
    decide +kernel
  obtain ⟨c, hc, hcan, hresponses⟩ := hok
  cases t with
  | error e => cases hc
  | ok d =>
    cases hc
    obtain ⟨-, hcomplete, -⟩ :=
      (responses_framed (by decide) twoParts (by decide) _ ht).2 c rfl
    rw [unsent, if_pos hcan, List.append_nil, hresponses] at hcomplete
    exact ⟨c, ht, by simpa using hcomplete, hcan⟩

/-! ## Responses and requests -/

/-- The event begins a response, and completes no request. -/
def Unasked (c : Client) (e : Event L) : Prop :=
  c.canSend = true ∧ e.sends = true ∧
    (e.data = [] ∨ ¬requestFormat.Complete (c.inHand e.data) ∧ ¬Negative (c.inHand e.data))

instance (c : Client) (e : Event L) : Decidable (c.Unasked e) :=
  inferInstanceAs (Decidable (_ ∧ _ ∧ (_ ∨ _ ∧ _)))

/-- Each response that the event begins is asked for by a request that the event completes. -/
def Asked (s : Except RuntimeException Client) (e : Event L) : Prop :=
  match s with
  | .error _ => True
  | .ok c => ¬c.Unasked e

instance : ∀ (s : Except RuntimeException Client) (e : Event L), Decidable (Asked s e)
  | .error _, _ => inferInstanceAs (Decidable True)
  | .ok c, e => inferInstanceAs (Decidable (¬c.Unasked e))

/-- No more responses than requests. -/
theorem handle_asked (hc : c.Inv L) (hle : c.responses.length ≤ c.bodies.length) {e : Event L}
    (he : c.Reports e) (hasked : ¬c.Unasked e) (h : c.handle e = .ok d) :
    d.responses.length ≤ d.bodies.length := by
  rcases handle_spec hc.recvReady hc.sendReady he with
    ⟨hnil, d', hd, hsame, -, hresponses⟩ | ⟨-, -, herror⟩ |
      ⟨hne, hneg, d', hd, -, -, hresponses, -, hbodies, -⟩
  · rw [hd] at h
    cases h
    have hnone : ¬(c.canSend && e.sends) = true := by
      rw [Bool.and_eq_true]
      exact fun hboth => hasked ⟨hboth.1, hboth.2, Or.inl hnil⟩
    rw [hresponses, responsesAfter, if_neg hnone, hsame.bodies]
    exact hle
  · rw [herror] at h
    cases h
  · rw [hd] at h
    cases h
    rw [hresponses, responsesAfter, hbodies, List.length_append, List.length_map]
    split
    · next hboth =>
      rw [Bool.and_eq_true] at hboth
      have hcomplete : requestFormat.Complete (c.inHand e.data) := by
        by_contra hnot
        refine hasked ⟨hboth.1, hboth.2, Or.inr ⟨hnot, ?_⟩⟩
        rw [cut_incomplete hnot] at hneg
        exact hneg
      rw [cut_complete hcomplete, List.length_append]
      simp only [List.length_cons, List.length_nil]
      omega
    · omega

/--
**When the responses do not outnumber the requests.**

In every run whose events begin a response only when they complete a request, no state has more
responses than requests.
-/
theorem responses_le_requests (hL : L + 4 ≤ SEND_BUFF_LEN) (events : List (Event L))
    (hasked : Along step (.ok create) events Asked) (t : Except RuntimeException Client)
    (hvisit : Visits step (.ok create) events t) (c : Client) (hc : t = .ok c) :
    c.responses.length ≤ c.bodies.length := by
  have hall : ∀ c, t = .ok c → c.Inv L ∧ c.responses.length ≤ c.bodies.length := by
    refine visits_invariant (P := fun t : Except RuntimeException Client =>
      ∀ c, t = .ok c → c.Inv L ∧ c.responses.length ≤ c.bodies.length) ?_ ?_ hasked hvisit
    · intro s e t hs hgood hstep
      cases s with
      | error x => cases hstep
      | ok c =>
        obtain ⟨hinv, hle⟩ := hs c rfl
        simp only [step] at hstep
        split at hstep
        · next he =>
          cases hstep
          intro d hd
          rcases hinv.handle he with h | ⟨d', hd', hinv'⟩
          · rw [h] at hd
            cases hd
          · have hdd := hd
            rw [hd'] at hdd
            cases hdd
            exact ⟨hinv', handle_asked hinv hle he hgood hd⟩
        · cases hstep
    · intro c hc
      cases hc
      exact ⟨⟨create_recvReady, create_sendReady hL⟩, Nat.le_refl _⟩
  exact (hall c hc).2

theorem twoParts_asked : ∃ c, replay step (.ok create) twoParts = some (.ok c) ∧
    c.responses.length ≤ c.bodies.length := by
  obtain ⟨t, ht, hok⟩ : ∃ t ∈ replay step (.ok create) twoParts, t.toOption.isSome := by
    decide +kernel
  cases t with
  | error e => cases hok
  | ok c =>
    exact ⟨c, ht, responses_le_requests (by decide) twoParts (by decide +kernel) _
      ⟨_, List.prefix_rfl, ht⟩ c rfl⟩

/-- A read of one byte is answered. -/
theorem oneByte_answered : ∃ c,
    replay step (.ok create) [Event.reads [0]] = some (.ok c) ∧
      ¬c.responses.length ≤ c.bodies.length := by
  obtain ⟨t, ht, c, hc, hlt⟩ : ∃ t ∈ replay step (.ok create) [Event.reads [0]],
      ∃ c ∈ t.toOption, ¬c.responses.length ≤ c.bodies.length := by
    decide +kernel
  cases t with
  | error e => cases hc
  | ok d =>
    cases hc
    exact ⟨_, ht, hlt⟩

end Client

end Nwchecker.Nonblock
