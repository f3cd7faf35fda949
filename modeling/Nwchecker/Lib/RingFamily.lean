import Nwchecker.Lib.Ring

/-!
# Families of rings

Several rings in one memory, none of which shares a node with another. What the memory stands for
is a sequence for each head.

* `Represents` — the memory stands for the sequences
* `Represents.replace` — one ring changes, the others are left alone
-/

namespace Ring

universe u

variable {ν : Type u}

/-- The members of each head, and `none` for a node that is no head. -/
abbrev Sequences (ν : Type u) : Type u := ν → Option (List ν)

/-- Every head has a ring of its members, and no node is in two rings. -/
structure Represents (h : Links ν) (rings : Sequences ν) : Prop where
  ring : ∀ {head xs}, rings head = some xs → IsRing h head xs
  disjoint : ∀ {head head' xs ys}, rings head = some xs → rings head' = some ys → head ≠ head' →
    ∀ v ∈ head :: xs, v ∉ head' :: ys

/-- The node is in no ring. -/
def Unlinked (rings : Sequences ν) (v : ν) : Prop :=
  ∀ head xs, rings head = some xs → v ∉ head :: xs

/-- The links of these nodes are the same. -/
def Agree (h h' : Links ν) (nodes : List ν) : Prop :=
  ∀ v ∈ nodes, h'.next v = h.next v ∧ h'.prev v = h.prev v

variable {h h' h'' : Links ν} {rings : Sequences ν} {head : ν} {xs zs nodes : List ν}

theorem Agree.refl : Agree h h nodes := fun _ _ => ⟨rfl, rfl⟩

theorem Agree.trans (h₁ : Agree h h' nodes) (h₂ : Agree h' h'' nodes) : Agree h h'' nodes := by
  intro v hv
  obtain ⟨hn, hp⟩ := h₁ v hv
  obtain ⟨hn', hp'⟩ := h₂ v hv
  exact ⟨hn'.trans hn, hp'.trans hp⟩

/-- A member has one head only. -/
theorem Represents.head_unique (hrep : Represents h rings) {head head' : ν} {xs ys : List ν}
    (hhead : rings head = some xs) (hhead' : rings head' = some ys) {v : ν} (hv : v ∈ head :: xs)
    (hv' : v ∈ head' :: ys) : head = head' := by
  by_contra hne
  exact hrep.disjoint hhead hhead' hne v hv hv'

section Update

variable [DecidableEq ν]

namespace Sequences

/-- `new` becomes the first member of `head`. -/
def addFirst (rings : Sequences ν) (new head : ν) : Sequences ν :=
  Function.update rings head ((rings head).map (new :: ·))

/-- `new` becomes the last member of `head`. -/
def addLast (rings : Sequences ν) (new head : ν) : Sequences ν :=
  Function.update rings head ((rings head).map (· ++ [new]))

/-- `x` is a member no more, whosever it was. -/
def remove (rings : Sequences ν) (x : ν) : Sequences ν := fun k => (rings k).map (·.erase x)

end Sequences

theorem addFirst_eq (hhead : rings head = some xs) (new : ν) :
    rings.addFirst new head = Function.update rings head (some (new :: xs)) := by
  rw [Sequences.addFirst, hhead, Option.map_some]

theorem addLast_eq (hhead : rings head = some xs) (new : ν) :
    rings.addLast new head = Function.update rings head (some (xs ++ [new])) := by
  rw [Sequences.addLast, hhead, Option.map_some]

/-- A member is taken out of the one ring that it is in. -/
theorem Represents.remove_eq (hrep : Represents h rings) {x : ν} {ys : List ν}
    (hhead : rings head = some (xs ++ x :: ys)) :
    rings.remove x = Function.update rings head (some (xs ++ ys)) := by
  have hnd : (xs ++ x :: ys).Nodup := (List.nodup_cons.mp (hrep.ring hhead).nodup).2
  have hx : x ∉ xs := by grind
  funext k
  by_cases hk : k = head
  · subst hk
    rw [Function.update_self, Sequences.remove, hhead, Option.map_some,
      List.erase_append_right _ hx, List.erase_cons_head]
  · rw [Function.update_of_ne hk, Sequences.remove]
    cases hzs : rings k with
    | none => rfl
    | some zs =>
      have hnot : x ∉ zs := fun hmem => hk
        (hrep.head_unique hzs hhead (List.mem_cons_of_mem _ hmem) (by simp))
      rw [Option.map_some, List.erase_of_not_mem hnot]

/-- Then it is in none. -/
theorem Represents.remove_unlinked (hrep : Represents h rings) {x : ν}
    (hhead : rings head = some xs) (hx : x ∈ xs) : Unlinked (rings.remove x) x := by
  intro k zs hk hmem
  obtain ⟨ys, hys, rfl⟩ := Option.map_eq_some_iff.mp hk
  have hnd := List.nodup_cons.mp (hrep.ring hys).nodup
  rcases List.mem_cons.mp hmem with rfl | hmem
  · obtain rfl := hrep.head_unique hys hhead List.mem_cons_self (List.mem_cons_of_mem _ hx)
    rw [hhead] at hys
    cases hys
    exact hnd.1 hx
  · exact hnd.2.not_mem_erase hmem

/-- **One ring changes.** Its new members were in it before or are nodes that were in no ring, and
the links of the other rings are what they were. -/
theorem Represents.replace (hrep : Represents h rings) (hhead : rings head = some xs)
    (hring : IsRing h' head zs) (hnodes : ∀ v ∈ zs, v ∈ head :: xs ∨ Unlinked rings v)
    (hothers : ∀ k ys, rings k = some ys → k ≠ head → Agree h h' (k :: ys)) :
    Represents h' (Function.update rings head (some zs)) := by
  -- the new ring and one of the others
  have hapart : ∀ k ys, rings k = some ys → k ≠ head → ∀ v ∈ head :: zs, v ∉ k :: ys := by
    intro k ys hk hne v hv
    have hold : v ∈ head :: xs ∨ Unlinked rings v := by
      rcases List.mem_cons.mp hv with rfl | hv
      · exact Or.inl List.mem_cons_self
      · exact hnodes v hv
    rcases hold with hold | hfree
    · exact hrep.disjoint hhead hk hne.symm v hold
    · exact hfree k ys hk
  constructor
  · intro k ys hk
    by_cases hne : k = head
    · subst hne
      rw [Function.update_self] at hk
      cases hk
      exact hring
    · rw [Function.update_of_ne hne] at hk
      exact (hrep.ring hk).of_agree (hothers k ys hk hne)
  · intro k k' ys ys' hk hk' hkk v hv hv'
    by_cases hne : k = head
    · subst hne
      rw [Function.update_self] at hk
      rw [Function.update_of_ne hkk.symm] at hk'
      cases hk
      exact hapart k' ys' hk' hkk.symm v hv hv'
    · rw [Function.update_of_ne hne] at hk
      by_cases hne' : k' = head
      · subst hne'
        rw [Function.update_self] at hk'
        cases hk'
        exact hapart k ys hk hne v hv' hv
      · rw [Function.update_of_ne hne'] at hk'
        exact hrep.disjoint hk hk' hkk v hv hv'

/-- A node stays out of the rings when it does not become a member. -/
theorem Unlinked.replace {v : ν} (hfree : Unlinked rings v) (hhead : rings head = some xs)
    (hv : v ∉ zs) : Unlinked (Function.update rings head (some zs)) v := by
  intro k ys hk
  by_cases hne : k = head
  · subst hne
    rw [Function.update_self] at hk
    cases hk
    intro hmem
    rcases List.mem_cons.mp hmem with rfl | hmem
    · exact hfree v xs hhead List.mem_cons_self
    · exact hv hmem
  · rw [Function.update_of_ne hne] at hk
    exact hfree k ys hk

end Update

end Ring
