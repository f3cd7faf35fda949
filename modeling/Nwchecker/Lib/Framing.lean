import Mathlib.Data.List.Basic
import Mathlib.Data.List.Infix

/-!
# Length-prefixed framing

A stream is a concatenation of frames. A frame starts with a header of fixed length, and the
header says how long the payload is. The receiver sees a prefix of the stream, cuts off the
complete frames and keeps the rest for later.

* `cut` — the complete frames at the front of a list, and what is left
* `Parsed` — the same thing said without an algorithm; it determines the answer (`Parsed.unique`)
* `fullyReceived` — the frames of a known stream that lie within its first `n` elements
* `Parsed.eq_fullyReceived` — cutting a prefix of the stream gives exactly those frames, so the
  answer depends on how much has arrived and not on how it arrived
-/

namespace Framing

variable {α : Type*}

/-- How frames are laid out: a header of `hdrLen` elements that tells the payload length. -/
structure Format (α : Type*) where
  hdrLen : Nat
  hdrLen_pos : 0 < hdrLen
  payload : List α → Nat

variable (F : Format α)

/-- The length of the frame whose header is at the front of `l`. -/
def Format.frameLen (l : List α) : Nat := F.hdrLen + F.payload (l.take F.hdrLen)

/-- `f` is one whole frame. -/
def Format.IsFrame (f : List α) : Prop := F.hdrLen ≤ f.length ∧ f.length = F.frameLen f

/-- A whole frame is at the front of `l`. -/
def Format.Complete (l : List α) : Prop := F.hdrLen ≤ l.length ∧ F.frameLen l ≤ l.length

instance (f : List α) : Decidable (F.IsFrame f) := inferInstanceAs (Decidable (_ ∧ _))

instance (l : List α) : Decidable (F.Complete l) := inferInstanceAs (Decidable (_ ∧ _))

variable {F}

theorem frameLen_pos (l : List α) : 0 < F.frameLen l := by
  have := F.hdrLen_pos
  unfold Format.frameLen
  omega

/-- The header decides the frame length, so what follows the header does not matter. -/
theorem frameLen_append {l : List α} (h : F.hdrLen ≤ l.length) (t : List α) :
    F.frameLen (l ++ t) = F.frameLen l := by
  unfold Format.frameLen
  rw [List.take_append_of_le_length h]

theorem Format.IsFrame.length_pos {f : List α} (h : F.IsFrame f) : 0 < f.length := by
  have := F.hdrLen_pos
  have := h.1
  omega

theorem Format.IsFrame.frameLen_append {f : List α} (h : F.IsFrame f) (t : List α) :
    F.frameLen (f ++ t) = f.length := by
  rw [Framing.frameLen_append h.1, ← h.2]

theorem Format.IsFrame.complete_append {f : List α} (h : F.IsFrame f) (t : List α) :
    F.Complete (f ++ t) := by
  refine ⟨?_, ?_⟩
  · rw [List.length_append]
    have := h.1
    omega
  · rw [h.frameLen_append, List.length_append]
    omega

theorem Format.Complete.isFrame_take {l : List α} (h : F.Complete l) :
    F.IsFrame (l.take (F.frameLen l)) := by
  have hlen : (l.take (F.frameLen l)).length = F.frameLen l := by
    rw [List.length_take]
    exact Nat.min_eq_left h.2
  have hhdr : F.hdrLen ≤ F.frameLen l := by
    unfold Format.frameLen
    omega
  refine ⟨by omega, ?_⟩
  rw [hlen]
  unfold Format.frameLen
  rw [List.take_take, Nat.min_eq_left]
  exact hhdr

/-! ## Cutting -/

/-- The complete frames at the front of `l`, and what is left. -/
def cut (F : Format α) (l : List α) : List (List α) × List α :=
  if F.Complete l then
    (l.take (F.frameLen l) :: (cut F (l.drop (F.frameLen l))).1,
      (cut F (l.drop (F.frameLen l))).2)
  else ([], l)
termination_by l.length
decreasing_by
  all_goals
    rename_i h
    have := frameLen_pos (F := F) l
    have := h.2
    rw [List.length_drop]
    omega

theorem cut_complete {l : List α} (h : F.Complete l) :
    cut F l = (l.take (F.frameLen l) :: (cut F (l.drop (F.frameLen l))).1,
      (cut F (l.drop (F.frameLen l))).2) := by
  rw [cut, if_pos h]

theorem cut_incomplete {l : List α} (h : ¬F.Complete l) : cut F l = ([], l) := by
  rw [cut, if_neg h]

/-- `l` is the frames `fs` followed by `r`, and no whole frame is at the front of `r`. -/
structure Parsed (F : Format α) (l : List α) (fs : List (List α)) (r : List α) : Prop where
  eq : l = fs.flatten ++ r
  frames : ∀ f ∈ fs, F.IsFrame f
  rest : ¬F.Complete r

theorem parsed_nil {l : List α} (h : ¬F.Complete l) : Parsed F l [] l :=
  ⟨by simp, by simp, h⟩

theorem Parsed.cons {f l : List α} {fs : List (List α)} {r : List α} (hf : F.IsFrame f)
    (h : Parsed F l fs r) : Parsed F (f ++ l) (f :: fs) r where
  eq := by rw [h.eq, List.flatten_cons, List.append_assoc]
  frames := by
    intro g hg
    rcases List.mem_cons.mp hg with rfl | hg
    · exact hf
    · exact h.frames g hg
  rest := h.rest

/-- Cutting does what it is meant to do. -/
theorem cut_parsed (l : List α) : Parsed F l (cut F l).1 (cut F l).2 := by
  induction hn : l.length using Nat.strongRecOn generalizing l with
  | _ n ih =>
    by_cases h : F.Complete l
    · have hlt : (l.drop (F.frameLen l)).length < n := by
        have := frameLen_pos (F := F) l
        have := h.2
        rw [List.length_drop]
        omega
      have hrec := (ih _ hlt (l.drop (F.frameLen l)) rfl).cons h.isFrame_take
      rw [List.take_append_drop] at hrec
      rw [cut_complete h]
      exact hrec
    · rw [cut_incomplete h]
      exact parsed_nil h

/-- The frames and the rest are determined by the list. -/
theorem Parsed.unique : ∀ {fs gs : List (List α)} {l r s : List α},
    Parsed F l fs r → Parsed F l gs s → fs = gs ∧ r = s
  | [], [], l, r, s, h, h' => by
    have e := h.eq
    have e' := h'.eq
    simp only [List.flatten_nil, List.nil_append] at e e'
    exact ⟨rfl, by rw [← e, ← e']⟩
  | [], g :: gs, l, r, s, h, h' => by
    -- the first rest starts with the frame `g`, so it is not a rest
    exfalso
    have e : l = r := by simpa using h.eq
    refine h.rest ?_
    rw [← e, h'.eq, List.flatten_cons, List.append_assoc]
    exact (h'.frames g List.mem_cons_self).complete_append _
  | f :: fs, [], l, r, s, h, h' => by
    exfalso
    have e : l = s := by simpa using h'.eq
    refine h'.rest ?_
    rw [← e, h.eq, List.flatten_cons, List.append_assoc]
    exact (h.frames f List.mem_cons_self).complete_append _
  | f :: fs, g :: gs, l, r, s, h, h' => by
    have hf := h.frames f List.mem_cons_self
    have hg := h'.frames g List.mem_cons_self
    have e : f ++ (fs.flatten ++ r) = g ++ (gs.flatten ++ s) := by
      rw [← List.append_assoc, ← List.append_assoc, ← List.flatten_cons, ← List.flatten_cons,
        ← h.eq, ← h'.eq]
    -- both frames have the length their common header announces
    have hlen : f.length = g.length := by
      rw [← hf.frameLen_append (fs.flatten ++ r), e, hg.frameLen_append]
    obtain ⟨hfg, htail⟩ := List.append_inj e hlen
    have hl : Parsed F (fs.flatten ++ r) fs r :=
      ⟨rfl, fun x hx => h.frames x (List.mem_cons_of_mem _ hx), h.rest⟩
    have hl' : Parsed F (fs.flatten ++ r) gs s :=
      ⟨htail, fun x hx => h'.frames x (List.mem_cons_of_mem _ hx), h'.rest⟩
    obtain ⟨h1, h2⟩ := hl.unique hl'
    exact ⟨by rw [hfg, h1], h2⟩

theorem Parsed.eq_cut {l r : List α} {fs : List (List α)} (h : Parsed F l fs r) :
    cut F l = (fs, r) := by
  obtain ⟨h1, h2⟩ := (cut_parsed l).unique h
  exact Prod.ext h1 h2

/-! ## A known stream -/

/-- The frames that lie within the first `n` elements of their concatenation. -/
def fullyReceived : List (List α) → Nat → List (List α)
  | [], _ => []
  | f :: fs, n => if f.length ≤ n then f :: fullyReceived fs (n - f.length) else []

/-- A prefix of a frame that is shorter than the frame holds no whole frame. -/
theorem not_complete_of_shorter {f got t : List α} (hf : F.IsFrame f) (hp : got <+: f ++ t)
    (hlt : got.length < f.length) : ¬F.Complete got := by
  intro hc
  have hpf : got <+: f := List.prefix_of_prefix_length_le hp (List.prefix_append f t) (by omega)
  obtain ⟨u, hu⟩ := hpf
  have : F.frameLen got = f.length := by
    rw [hf.2, ← hu, frameLen_append hc.1]
  have := hc.2
  omega

/--
**Segmentation independence.**

Of a stream of frames a prefix has arrived. Cutting that prefix gives the frames that have
arrived in full.
-/
theorem Parsed.eq_fullyReceived {fs hs : List (List α)} {got r : List α}
    (hfs : ∀ f ∈ fs, F.IsFrame f) (hp : got <+: fs.flatten) (h : Parsed F got hs r) :
    hs = fullyReceived fs got.length := by
  induction fs generalizing hs got r with
  | nil =>
    have hgot : got = [] := by simpa using hp
    have hnc : ¬F.Complete got := by
      intro hc
      have := F.hdrLen_pos
      have := hc.1
      rw [hgot] at this
      simp at this
      omega
    rw [(h.unique (parsed_nil hnc)).1]
    rfl
  | cons f fs ih =>
    have hf := hfs f List.mem_cons_self
    rw [List.flatten_cons] at hp
    by_cases hle : f.length ≤ got.length
    · obtain ⟨got', rfl⟩ : f <+: got :=
        List.prefix_of_prefix_length_le (List.prefix_append f _) hp hle
      have hp' : got' <+: fs.flatten := (List.prefix_append_right_inj f).mp hp
      have hrec := ih (fun g hg => hfs g (List.mem_cons_of_mem _ hg)) hp' (cut_parsed got')
      rw [(h.unique ((cut_parsed got').cons hf)).1, hrec, fullyReceived, if_pos hle]
      simp
    · -- not even the first frame has arrived in full
      rw [(h.unique (parsed_nil (not_complete_of_shorter hf hp (by omega)))).1, fullyReceived,
        if_neg hle]

/-- Frames at the front of a stream of frames are its first frames. -/
theorem frames_of_stream : ∀ {hs fs : List (List α)} {r : List α},
    (∀ h ∈ hs, F.IsFrame h) → (∀ f ∈ fs, F.IsFrame f) → hs.flatten ++ r <+: fs.flatten →
    ∃ gs, fs = hs ++ gs ∧ r <+: gs.flatten
  | [], fs, _, _, _, hp => ⟨fs, rfl, by simpa using hp⟩
  | h :: hs, [], r, hhs, _, hp => by
    have hpos := (hhs h List.mem_cons_self).length_pos
    have hlen : ((h :: hs).flatten ++ r).length ≤ 0 := hp.length_le
    rw [List.flatten_cons, List.length_append, List.length_append] at hlen
    omega
  | h :: hs, f :: fs, r, hhs, hfs, hp => by
    have hh := hhs h List.mem_cons_self
    have hf := hfs f List.mem_cons_self
    obtain ⟨t, ht⟩ := hp
    simp only [List.flatten_cons, List.append_assoc] at ht
    have hlen : h.length = f.length := by
      rw [← hh.frameLen_append (hs.flatten ++ (r ++ t)), ht, hf.frameLen_append]
    obtain ⟨rfl, hrest⟩ := List.append_inj ht hlen
    obtain ⟨gs, rfl, hr⟩ := frames_of_stream (fun x hx => hhs x (List.mem_cons_of_mem _ hx))
      (fun x hx => hfs x (List.mem_cons_of_mem _ hx)) ⟨t, by rw [List.append_assoc, hrest]⟩
    exact ⟨gs, rfl, hr⟩

/-- A header at the front of a stream of frames is the header of its first frame. -/
theorem frameLen_of_stream {fs : List (List α)} {l : List α} (hfs : ∀ f ∈ fs, F.IsFrame f)
    (hp : l <+: fs.flatten) (hlen : F.hdrLen ≤ l.length) :
    ∃ f ∈ fs, F.frameLen l = f.length := by
  cases fs with
  | nil =>
    have hpos := F.hdrLen_pos
    have : l.length ≤ 0 := hp.length_le
    omega
  | cons f fs =>
    obtain ⟨t, ht⟩ := hp
    rw [List.flatten_cons] at ht
    refine ⟨f, List.mem_cons_self, ?_⟩
    rw [← frameLen_append hlen t, ht, (hfs f List.mem_cons_self).frameLen_append]

/-- What is left of a stream of frames of limited length, once they are cut off, is short. -/
theorem rest_length_lt {fs : List (List α)} {l : List α} {m : Nat} (hm : 0 < m)
    (hfs : ∀ f ∈ fs, F.IsFrame f ∧ f.length ≤ m) (hp : l <+: fs.flatten) (hc : ¬F.Complete l) :
    l.length < m := by
  cases fs with
  | nil =>
    have : l.length ≤ 0 := hp.length_le
    omega
  | cons f fs =>
    obtain ⟨hf, hle⟩ := hfs f List.mem_cons_self
    by_contra hge
    rw [List.flatten_cons] at hp
    obtain ⟨u, rfl⟩ : f <+: l :=
      List.prefix_of_prefix_length_le (List.prefix_append f _) hp (by omega)
    exact hc (hf.complete_append u)

end Framing
