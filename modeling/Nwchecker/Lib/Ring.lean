import Mathlib.Data.List.Basic
import Mathlib.Data.List.Iterate
import Mathlib.Data.List.Nodup
import Mathlib.Logic.Function.Basic

/-!
# Doubly linked rings

Nodes that point at each other through `next` and `prev`. A ring is a head with its members: from
the head the `next` links lead through the members in order and back to the head, and the `prev`
links lead the same way backwards.

* `Walk` — links that lead along a list of nodes, both ways
* `IsRing` — a walk from the head to the head that meets no node twice
* `IsRing.unique` — the links determine the members
* `IsRing.next_prev`, `IsRing.forward`, `IsRing.backward` — what following the links comes to
* `IsRing.insert` — a new node between two neighbours
* `IsRing.remove` — a member taken out
-/

namespace Ring

universe u

variable {ν : Type u}

/-- The `next` and `prev` fields of all nodes. -/
structure Links (ν : Type u) where
  next : ν → ν
  prev : ν → ν

/-- Links that lead from `a` along `l` to `b`, and back. -/
def Walk (h : Links ν) : ν → List ν → ν → Prop
  | a, [], b => a = b
  | a, x :: l, b => (h.next a = x ∧ h.prev x = a) ∧ Walk h x l b

/-- The ring of `head` has the members `xs`, in this order. -/
structure IsRing (h : Links ν) (head : ν) (xs : List ν) : Prop where
  nodup : (head :: xs).Nodup
  walk : Walk h head (xs ++ [head]) head

variable {h h' : Links ν} {head : ν} {xs ys : List ν}

theorem walk_append {l l' : List ν} {a c : ν} :
    Walk h a (l ++ l') c ↔ ∃ b, Walk h a l b ∧ Walk h b l' c := by
  induction l generalizing a with
  | nil =>
    constructor
    · intro hw
      exact ⟨a, rfl, hw⟩
    · rintro ⟨b, hab, hw⟩
      cases hab
      exact hw
  | cons x l ih =>
    rw [List.cons_append, Walk, ih]
    constructor
    · rintro ⟨hx, b, hl, hl'⟩
      exact ⟨b, ⟨hx, hl⟩, hl'⟩
    · rintro ⟨b, ⟨hx, hl⟩, hl'⟩
      exact ⟨hx, b, hl, hl'⟩

/-- A walk ends at its last node. -/
theorem Walk.end_mem {l : List ν} {a b : ν} (hw : Walk h a l b) : b ∈ a :: l := by
  induction l generalizing a with
  | nil =>
    cases hw
    exact List.mem_cons_self
  | cons x l ih => exact List.mem_cons_of_mem a (ih hw.2)

/-- Only the links along the way matter: `next` of all nodes but the last, `prev` of all but the
first. -/
theorem Walk.of_agree {l : List ν} {a b : ν} (hw : Walk h a l b)
    (hnext : ∀ v ∈ (a :: l).dropLast, h'.next v = h.next v)
    (hprev : ∀ v ∈ l, h'.prev v = h.prev v) : Walk h' a l b := by
  induction l generalizing a with
  | nil => exact hw
  | cons x l ih =>
    obtain ⟨⟨hn, hp⟩, hrest⟩ := hw
    rw [List.dropLast_cons_cons] at hnext
    refine ⟨⟨?_, ?_⟩, ?_⟩
    · rw [hnext a List.mem_cons_self, hn]
    · rw [hprev x List.mem_cons_self, hp]
    · exact ih hrest (fun v hv => hnext v (List.mem_cons_of_mem a hv))
        (fun v hv => hprev v (List.mem_cons_of_mem x hv))

/-- A walk ends where its list ends. -/
theorem Walk.end_eq {l : List ν} {a b c : ν} (hb : Walk h a l b) (hc : Walk h a l c) : b = c := by
  induction l generalizing a with
  | nil =>
    cases hb
    exact hc
  | cons x l ih => exact ih hb.2 hc.2

/-- A walk that meets no node twice is at its end only once. -/
theorem Walk.end_not_mem {l : List ν} {a b : ν} (hw : Walk h a l b) (hnd : (a :: l).Nodup) :
    b ∉ (a :: l).dropLast := by
  induction l generalizing a with
  | nil => exact List.not_mem_nil
  | cons x l ih =>
    obtain ⟨hax, hnd'⟩ := List.nodup_cons.mp hnd
    rw [List.dropLast_cons_cons]
    intro hb
    rcases List.mem_cons.mp hb with rfl | hb
    · exact hax hw.2.end_mem
    · exact ih hw.2 hnd' hb

/-- Links lead along one list at most, up to the first time they come to the end. -/
theorem Walk.unique : ∀ {l l' : List ν} {a b : ν}, b ∉ l → b ∉ l' →
    Walk h a (l ++ [b]) b → Walk h a (l' ++ [b]) b → l = l'
  | [], [], _, _, _, _, _, _ => rfl
  | [], y :: l', a, b, _, hl', ⟨⟨hn, _⟩, _⟩, ⟨⟨hn', _⟩, _⟩ => by
    rw [← hn, ← hn'] at hl'
    exact absurd List.mem_cons_self hl'
  | x :: l, [], a, b, hl, _, ⟨⟨hn, _⟩, _⟩, ⟨⟨hn', _⟩, _⟩ => by
    rw [← hn, ← hn'] at hl
    exact absurd List.mem_cons_self hl
  | x :: l, y :: l', a, b, hl, hl', ⟨⟨hn, _⟩, hw⟩, ⟨⟨hn', _⟩, hw'⟩ => by
    obtain rfl : x = y := by rw [← hn, ← hn']
    rw [hw.unique (fun hb => hl (List.mem_cons_of_mem x hb))
      (fun hb => hl' (List.mem_cons_of_mem x hb)) hw']

/-- The links determine the members of a ring. -/
theorem IsRing.unique (hx : IsRing h head xs) (hy : IsRing h head ys) : xs = ys :=
  Walk.unique (List.nodup_cons.mp hx.nodup).1 (List.nodup_cons.mp hy.nodup).1 hx.walk hy.walk

/-- The links of nodes outside the ring do not matter. -/
theorem IsRing.of_agree (hr : IsRing h head xs)
    (hagree : ∀ v ∈ head :: xs, h'.next v = h.next v ∧ h'.prev v = h.prev v) :
    IsRing h' head xs where
  nodup := hr.nodup
  walk := by
    refine hr.walk.of_agree (fun v hv => (hagree v ?_).1) (fun v hv => (hagree v ?_).2)
    · rw [show head :: (xs ++ [head]) = (head :: xs) ++ [head] from rfl, List.dropLast_concat] at hv
      exact hv
    · rcases List.mem_append.mp hv with hv | hv
      · exact List.mem_cons_of_mem _ hv
      · rw [List.mem_singleton.mp hv]
        exact List.mem_cons_self

/-- The neighbours of a member: `p` is the last node in front of it, `n` the first behind it. -/
theorem IsRing.around {x : ν} (hr : IsRing h head (xs ++ x :: ys)) :
    ∃ p n l, ys ++ [head] = n :: l ∧ Walk h head xs p ∧ Walk h n l head ∧ h.next p = x ∧
      h.prev x = p ∧ h.next x = n ∧ h.prev n = x := by
  have hw := hr.walk
  rw [List.append_assoc, List.cons_append] at hw
  obtain ⟨p, hfront, ⟨hnp, hpx⟩, hback⟩ := walk_append.mp hw
  obtain ⟨n, l, hl⟩ : ∃ n l, ys ++ [head] = n :: l := List.exists_cons_of_ne_nil (by simp)
  rw [hl] at hback
  obtain ⟨⟨hnx, hpn⟩, htail⟩ := hback
  exact ⟨p, n, l, hl, hfront, htail, hnp, hpx, hnx, hpn⟩

/-- Behind a member comes the next one, or the head. -/
theorem IsRing.next_member {x : ν} (hr : IsRing h head (xs ++ x :: ys)) :
    h.next x = ys.headD head := by
  obtain ⟨p, n, l, hl, -, -, -, -, hnx, -⟩ := hr.around
  rw [hnx]
  cases ys with
  | nil => exact (List.cons.inj hl).1.symm
  | cons y ys => exact (List.cons.inj hl).1.symm

/-- Behind the head comes the first member. -/
theorem IsRing.next_head (hr : IsRing h head xs) : h.next head = xs.headD head := by
  cases xs with
  | nil => exact hr.walk.1.1
  | cons x xs => exact hr.walk.1.1

/-! ## Following the links -/

/-- On a ring `next` and `prev` undo each other. -/
theorem IsRing.next_prev (hr : IsRing h head xs) {v : ν} (hv : v ∈ head :: xs) :
    h.next (h.prev v) = v ∧ h.prev (h.next v) = v := by
  rcases List.mem_cons.mp hv with rfl | hv
  · have hw := hr.walk
    obtain ⟨p, -, ⟨hnext, hprev⟩, -⟩ := walk_append.mp hw
    refine ⟨by rw [hprev, hnext], ?_⟩
    cases xs with
    | nil => rw [hw.1.1, hw.1.2]
    | cons x xs => rw [hw.1.1, hw.1.2]
  · obtain ⟨front, back, rfl⟩ := List.append_of_mem hv
    obtain ⟨p, n, l, -, -, -, hnp, hpx, hnx, hpn⟩ := hr.around
    exact ⟨by rw [hpx, hnp], by rw [hnx, hpn]⟩

/-- The links of a ring stay in it. -/
theorem IsRing.neighbours_mem (hr : IsRing h head xs) {v : ν} (hv : v ∈ head :: xs) :
    h.next v ∈ head :: xs ∧ h.prev v ∈ head :: xs := by
  rcases List.mem_cons.mp hv with rfl | hv
  · obtain ⟨p, hp, ⟨-, hprev⟩, -⟩ := walk_append.mp hr.walk
    refine ⟨?_, hprev ▸ hp.end_mem⟩
    rw [hr.next_head]
    cases xs with
    | nil => exact List.mem_cons_self
    | cons x xs => exact List.mem_cons_of_mem _ List.mem_cons_self
  · obtain ⟨front, back, rfl⟩ := List.append_of_mem hv
    obtain ⟨p, n, l, hl, hp, -, -, hpx, hnx, -⟩ := hr.around
    have hpmem : p ∈ head :: front := hp.end_mem
    have hnmem : n ∈ back ++ [head] := by simp [hl]
    rw [hpx, hnx]
    constructor
    · grind
    · grind

theorem Walk.iterate {l : List ν} {a b : ν} (hw : Walk h a l b) :
    List.iterate h.next (h.next a) l.length = l := by
  induction l generalizing a with
  | nil => rfl
  | cons x l ih =>
    obtain ⟨⟨hn, -⟩, hrest⟩ := hw
    rw [List.length_cons, List.iterate, hn, ih hrest]

/-- From the head `next` leads through all members in order. -/
theorem IsRing.forward (hr : IsRing h head xs) :
    List.iterate h.next (h.next head) xs.length = xs := by
  obtain ⟨p, hp, -⟩ := walk_append.mp hr.walk
  exact hp.iterate

/-- The links seen from behind. -/
def Links.flip (h : Links ν) : Links ν where
  next := h.prev
  prev := h.next

theorem Walk.flip {l : List ν} {a b : ν} (hw : Walk h a l b) :
    Walk h.flip b (a :: l).dropLast.reverse a := by
  induction l generalizing a with
  | nil =>
    cases hw
    rfl
  | cons x l ih =>
    obtain ⟨⟨hn, hp⟩, hrest⟩ := hw
    rw [List.dropLast_cons_cons, List.reverse_cons]
    exact walk_append.mpr ⟨x, ih hrest, ⟨hp, hn⟩, rfl⟩

theorem IsRing.flip (hr : IsRing h head xs) : IsRing h.flip head xs.reverse where
  nodup := by
    have := hr.nodup
    simp only [List.nodup_cons, List.mem_reverse, List.nodup_reverse] at this ⊢
    exact this
  walk := by
    have hw := hr.walk.flip
    rw [show head :: (xs ++ [head]) = (head :: xs) ++ [head] from rfl, List.dropLast_concat,
      List.reverse_cons] at hw
    exact hw

/-- From the head `prev` leads through all members in the opposite order. -/
theorem IsRing.backward (hr : IsRing h head xs) :
    List.iterate h.prev (h.prev head) xs.length = xs.reverse := by
  have hback := hr.flip.forward
  rw [List.length_reverse] at hback
  exact hback

/-! ## Writing links -/

section Write

variable [DecidableEq ν]

def Links.setNext (h : Links ν) (a b : ν) : Links ν := { h with next := Function.update h.next a b }

def Links.setPrev (h : Links ν) (a b : ν) : Links ν := { h with prev := Function.update h.prev a b }

/-- Put `new` between the neighbours `p` and `n`. -/
def Links.insertBetween (h : Links ν) (new p n : ν) : Links ν :=
  (((h.setPrev n new).setNext new n).setPrev new p).setNext p new

/-- A node whose links lead to itself both ways heads an empty ring. -/
theorem isRing_self (h : Links ν) (head : ν) :
    IsRing ((h.setNext head head).setPrev head head) head [] where
  nodup := List.nodup_singleton head
  walk := by
    simp [Walk, Links.setNext, Links.setPrev]

theorem insertBetween_next (h : Links ν) {new p n v : ν} (hv : v ≠ p) (hv' : v ≠ new) :
    (h.insertBetween new p n).next v = h.next v := by
  simp [Links.insertBetween, Links.setNext, Links.setPrev, Function.update_of_ne, hv, hv']

theorem insertBetween_prev (h : Links ν) {new p n v : ν} (hv : v ≠ n) (hv' : v ≠ new) :
    (h.insertBetween new p n).prev v = h.prev v := by
  simp [Links.insertBetween, Links.setNext, Links.setPrev, Function.update_of_ne, hv, hv']

theorem insertBetween_agree (h : Links ν) {new p n v : ν} (hp : v ≠ p) (hn : v ≠ n)
    (hnew : v ≠ new) : (h.insertBetween new p n).next v = h.next v ∧
      (h.insertBetween new p n).prev v = h.prev v :=
  ⟨insertBetween_next h hp hnew, insertBetween_prev h hn hnew⟩

theorem insertBetween_walk (h : Links ν) {new p n : ν} (hp : p ≠ new) (hn : n ≠ new) :
    Walk (h.insertBetween new p n) p [new, n] n := by
  simp [Walk, Links.insertBetween, Links.setNext, Links.setPrev, hn, hp.symm]

/-- The links in front of the new node are untouched. -/
theorem Walk.insert_front {new p n a : ν} (hw : Walk h a xs p) (hnd : (a :: xs).Nodup)
    (hnew : new ∉ a :: xs) (hn : n ∉ xs) : Walk (h.insertBetween new p n) a xs p := by
  refine hw.of_agree ?_ ?_
  · intro v hv
    refine insertBetween_next h ?_ ?_
    · rintro rfl
      exact hw.end_not_mem hnd hv
    · rintro rfl
      exact hnew ((List.dropLast_sublist _).subset hv)
  · intro v hv
    refine insertBetween_prev h ?_ ?_
    · rintro rfl
      exact hn hv
    · rintro rfl
      exact hnew (List.mem_cons_of_mem _ hv)

/-- So are the links behind it. -/
theorem Walk.insert_back {new p n b : ν} (hw : Walk h n ys b) (hnd : (n :: ys).Nodup)
    (hnew : new ∉ n :: ys) (hp : p ∉ (n :: ys).dropLast) :
    Walk (h.insertBetween new p n) n ys b := by
  refine hw.of_agree ?_ ?_
  · intro v hv
    refine insertBetween_next h ?_ ?_
    · rintro rfl
      exact hp hv
    · rintro rfl
      exact hnew ((List.dropLast_sublist _).subset hv)
  · intro v hv
    refine insertBetween_prev h ?_ ?_
    · rintro rfl
      exact (List.nodup_cons.mp hnd).1 hv
    · rintro rfl
      exact hnew (List.mem_cons_of_mem _ hv)

/-- **A new node between two neighbours** of a ring: `p` ends the members in front of it, and `n`
starts what follows. -/
theorem IsRing.insert {new p n : ν} {l : List ν} (hr : IsRing h head (xs ++ ys))
    (hnew : new ∉ head :: (xs ++ ys)) (hp : Walk h head xs p) (hl : ys ++ [head] = n :: l) :
    IsRing (h.insertBetween new p n) head (xs ++ new :: ys) := by
  -- once round, split at the new node
  have hw := hr.walk
  rw [List.append_assoc, hl] at hw
  obtain ⟨p', hfront, -, hback⟩ := walk_append.mp hw
  obtain rfl : p' = p := hfront.end_eq hp
  have hpmem : p' ∈ head :: xs := hp.end_mem
  have hnmem : n ∈ ys ++ [head] := by simp [hl]
  have hnd : (head :: (xs ++ ys)).Nodup := hr.nodup
  have hndfront : (head :: xs).Nodup := hnd.sublist (by simp)
  have hndback : (n :: l).Nodup := by
    rw [← hl]
    grind
  have hnewfront : new ∉ head :: xs := by grind
  have hnewback : new ∉ n :: l := by
    rw [← hl]
    grind
  have hnfront : n ∉ xs := by grind
  have hpback : p' ∉ (n :: l).dropLast := by
    rw [← hl, List.dropLast_concat]
    grind
  constructor
  · show ((head :: xs) ++ new :: ys).Nodup
    rw [List.nodup_middle, List.nodup_cons]
    exact ⟨hnew, hr.nodup⟩
  · have hgoal : xs ++ new :: ys ++ [head] = xs ++ ([new, n] ++ l) := by
      rw [List.append_assoc, List.cons_append, hl]
      rfl
    have hpnew : p' ≠ new := fun heq => hnewfront (heq ▸ hpmem)
    have hnnew : n ≠ new := fun heq => hnewback (heq ▸ List.mem_cons_self)
    rw [hgoal]
    refine walk_append.mpr ⟨p', hfront.insert_front hndfront hnewfront hnfront, ?_⟩
    exact walk_append.mpr ⟨n, insertBetween_walk h hpnew hnnew,
      hback.insert_back hndback hnewback hpback⟩

/-- `new` becomes the first member. -/
theorem IsRing.insert_front {new : ν} (hr : IsRing h head xs) (hnew : new ∉ head :: xs) :
    IsRing (h.insertBetween new head (h.next head)) head (new :: xs) := by
  obtain ⟨n, l, hl⟩ : ∃ n l, xs ++ [head] = n :: l := List.exists_cons_of_ne_nil (by simp)
  have hw := hr.walk
  rw [hl] at hw
  have hr' : IsRing h head ([] ++ xs) := hr
  rw [hw.1.1]
  exact hr'.insert hnew rfl hl

/-- The usual case: `new` becomes the last member. -/
theorem IsRing.insert_tail {new : ν} (hr : IsRing h head xs) (hnew : new ∉ head :: xs) :
    IsRing (h.insertBetween new (h.prev head) head) head (xs ++ [new]) := by
  obtain ⟨p, hp, ⟨-, hprev⟩, -⟩ := walk_append.mp hr.walk
  rw [hprev]
  rw [← List.append_nil xs] at hr hnew
  exact hr.insert hnew hp rfl

/-! ### Taking a node out -/

/-- Let the neighbours `p` and `n` of a node point at each other. -/
def Links.bypass (h : Links ν) (p n : ν) : Links ν := (h.setPrev n p).setNext p n

theorem bypass_next (h : Links ν) {p n v : ν} (hv : v ≠ p) : (h.bypass p n).next v = h.next v := by
  simp [Links.bypass, Links.setNext, Links.setPrev, Function.update_of_ne, hv]

theorem bypass_prev (h : Links ν) {p n v : ν} (hv : v ≠ n) : (h.bypass p n).prev v = h.prev v := by
  simp [Links.bypass, Links.setNext, Links.setPrev, Function.update_of_ne, hv]

theorem bypass_walk (h : Links ν) (p n : ν) : Walk (h.bypass p n) p [n] n := by
  simp [Walk, Links.bypass, Links.setNext, Links.setPrev]

/-- **A member taken out** of a ring: its neighbours close up. -/
theorem IsRing.remove {x : ν} (hr : IsRing h head (xs ++ x :: ys)) :
    IsRing (h.bypass (h.prev x) (h.next x)) head (xs ++ ys) := by
  obtain ⟨p, n, l, hl, hfront, hback, -, hpx, hnx, -⟩ := hr.around
  rw [hpx, hnx]
  have hnd : (head :: (xs ++ x :: ys)).Nodup := hr.nodup
  have hpmem : p ∈ head :: xs := hfront.end_mem
  have hnmem : n ∈ ys ++ [head] := by simp [hl]
  have hndfront : (head :: xs).Nodup := hnd.sublist (by simp)
  have hnfront : n ∉ xs := by grind
  have hpback : p ∉ (n :: l).dropLast := by
    rw [← hl, List.dropLast_concat]
    grind
  have hnback : n ∉ l := by
    have hndback : (n :: l).Nodup := by
      rw [← hl]
      grind
    exact (List.nodup_cons.mp hndback).1
  constructor
  · exact hnd.sublist (by simp)
  · rw [List.append_assoc, hl]
    show Walk _ head (xs ++ ([n] ++ l)) head
    refine walk_append.mpr ⟨p, ?_, walk_append.mpr ⟨n, bypass_walk h p n, ?_⟩⟩
    · refine hfront.of_agree (fun v hv => bypass_next h ?_) (fun v hv => bypass_prev h ?_)
      · rintro rfl
        exact hfront.end_not_mem hndfront hv
      · rintro rfl
        exact hnfront hv
    · refine hback.of_agree (fun v hv => bypass_next h ?_) (fun v hv => bypass_prev h ?_)
      · rintro rfl
        exact hpback hv
      · rintro rfl
        exact hnback hv

end Write

end Ring
