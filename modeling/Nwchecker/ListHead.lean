import Nwchecker.Lib.Ring

/-!
# `list.h`

The intrusive lists of the checker. A `struct list_head` is a node, and the links of all nodes
are the memory these functions work on. `NULL` is a node like the others, of which no ring has any.

The two traversals take `fuel`, a bound on the number of nodes they come to, and return `none` when
it does not suffice. On a ring it always does (`listForEach_ring`, `listForEachSafe_rule`).
-/

namespace Nwchecker

open Ring

variable {ν : Type} [DecidableEq ν]

/-- `INIT_LIST_HEAD` -/
def initListHead (h : Links ν) (list : ν) : Links ν := (h.setNext list list).setPrev list list

/-- `list_add`, which is `__list_add` between the head and the first node. -/
def listAdd (h : Links ν) (new head : ν) : Links ν := h.insertBetween new head (h.next head)

/-- `list_add_tail`, which is `__list_add` between the last node and the head. -/
def listAddTail (h : Links ν) (new head : ν) : Links ν := h.insertBetween new (h.prev head) head

/-- `list_del`, which is `__list_del` between the two neighbours. -/
def listDel (h : Links ν) (null entry : ν) : Links ν :=
  ((h.bypass (h.prev entry) (h.next entry)).setNext entry null).setPrev entry null

/-- `list_for_each(pos, head)` with a body that returns the first `pos` that passes the test. -/
def listForEach (h : Links ν) (head : ν) (test : ν → Bool) : Nat → ν → Option (Option ν)
  | 0, _ => none
  | fuel + 1, pos =>
    if pos = head then some none
    else if test pos then some (some pos)
    else listForEach h head test fuel (h.next pos)

/--
`list_for_each_safe(pos, n, head)`: the node behind `pos` is read before the body runs. The state
that the body works on holds the links.
-/
def listForEachSafe {σ : Type} (links : σ → Links ν) (head : ν) (body : ν → σ → σ) :
    Nat → ν → ν → σ → Option σ
  | 0, _, _, _ => none
  | fuel + 1, pos, n, s =>
    if pos = head then some s
    else
      let s := body pos s
      listForEachSafe links head body fuel n ((links s).next n) s

/-! ## What they do to rings -/

variable {h : Links ν} {null head head' new : ν} {xs ys zs : List ν}

theorem initListHead_isRing (h : Links ν) (head : ν) : IsRing (initListHead h head) head [] :=
  isRing_self h head

theorem listAdd_isRing (hr : IsRing h head xs) (hnew : new ∉ head :: xs) :
    IsRing (listAdd h new head) head (new :: xs) :=
  hr.insert_front hnew

theorem listAddTail_isRing (hr : IsRing h head xs) (hnew : new ∉ head :: xs) :
    IsRing (listAddTail h new head) head (xs ++ [new]) :=
  hr.insert_tail hnew

/-- The functions write to nodes of the ring and to the new one. -/
theorem listAdd_agree (hr : IsRing h head xs) {v : ν} (hv : v ∉ head :: xs) (hnew : v ≠ new) :
    (listAdd h new head).next v = h.next v ∧ (listAdd h new head).prev v = h.prev v := by
  have hnext := (hr.neighbours_mem List.mem_cons_self).1
  refine insertBetween_agree h ?_ ?_ hnew
  · rintro rfl
    exact hv List.mem_cons_self
  · rintro rfl
    exact hv hnext

theorem listAddTail_agree (hr : IsRing h head xs) {v : ν} (hv : v ∉ head :: xs) (hnew : v ≠ new) :
    (listAddTail h new head).next v = h.next v ∧ (listAddTail h new head).prev v = h.prev v := by
  have hprev := (hr.neighbours_mem List.mem_cons_self).2
  refine insertBetween_agree h ?_ ?_ hnew
  · rintro rfl
    exact hv hprev
  · rintro rfl
    exact hv List.mem_cons_self

/-- A ring that shares no node with the one that grows stays as it is. -/
theorem listAddTail_other (hr : IsRing h head xs) (hother : IsRing h head' zs)
    (hdisj : ∀ v ∈ head' :: zs, v ∉ head :: xs) (hnew : new ∉ head' :: zs) :
    IsRing (listAddTail h new head) head' zs := by
  refine hother.of_agree fun v hv => listAddTail_agree hr (hdisj v hv) ?_
  rintro rfl
  exact hnew hv

theorem listDel_isRing (null : ν) {x : ν} (hr : IsRing h head (xs ++ x :: ys)) :
    IsRing (listDel h null x) head (xs ++ ys) := by
  have hnd : (x :: (head :: (xs ++ ys))).Nodup := by
    have := hr.nodup
    grind
  refine hr.remove.of_agree fun v hv => ?_
  have hne : v ≠ x := by
    rintro rfl
    exact (List.nodup_cons.mp hnd).1 hv
  simp [listDel, Links.setNext, Links.setPrev, Function.update_of_ne, hne]

/-- `list_del` writes to nodes of the ring only. -/
theorem listDel_agree (null : ν) {x v : ν} (hr : IsRing h head xs) (hx : x ∈ xs)
    (hv : v ∉ head :: xs) :
    (listDel h null x).next v = h.next v ∧ (listDel h null x).prev v = h.prev v := by
  obtain ⟨hnmem, hpmem⟩ := hr.neighbours_mem (List.mem_cons_of_mem head hx)
  have hne : v ≠ x := by
    rintro rfl
    exact hv (List.mem_cons_of_mem _ hx)
  have hp : v ≠ h.prev x := by
    rintro rfl
    exact hv hpmem
  have hn : v ≠ h.next x := by
    rintro rfl
    exact hv hnmem
  refine ⟨?_, ?_⟩
  · rw [← bypass_next h (n := h.next x) hp]
    simp [listDel, Links.setNext, Links.setPrev, Function.update_of_ne, hne]
  · rw [← bypass_prev h (p := h.prev x) hn]
    simp [listDel, Links.setNext, Links.setPrev, Function.update_of_ne, hne]

/-- A ring that shares no node with the one that shrinks stays as it is. -/
theorem listDel_other (null : ν) {x : ν} (hr : IsRing h head (xs ++ x :: ys))
    (hother : IsRing h head' zs)
    (hdisj : ∀ v ∈ head' :: zs, v ∉ head :: (xs ++ x :: ys)) :
    IsRing (listDel h null x) head' zs :=
  hother.of_agree fun v hv => listDel_agree null hr (by simp) (hdisj v hv)

/-! ## What they find -/

/-- On a ring `list_for_each` finds the first member that passes the test. -/
theorem listForEach_walk {test : ν → Bool} : ∀ {xs : List ν} {fuel : Nat} {pos : ν},
    head ∉ xs → xs.length < fuel → Walk h pos (xs ++ [head]) head →
    listForEach h head test fuel (xs.headD head) = some (xs.find? test)
  | [], fuel + 1, pos, _, _, _ => by
    rw [listForEach, List.headD_nil, if_pos rfl]
    rfl
  | x :: xs, fuel + 1, pos, hhead, hfuel, hw => by
    have hne : x ≠ head := by
      rintro rfl
      exact hhead List.mem_cons_self
    rw [List.headD_cons, listForEach, if_neg hne, List.find?_cons]
    cases ht : test x with
    | true => simp
    | false =>
      have hnext : h.next x = xs.headD head := by
        cases xs with
        | nil => exact hw.2.1.1
        | cons y ys => exact hw.2.1.1
      simp only [Bool.false_eq_true, if_false, hnext]
      refine listForEach_walk (fun hm => hhead (List.mem_cons_of_mem _ hm)) ?_ hw.2
      simp only [List.length_cons] at hfuel
      omega

theorem listForEach_ring (hr : IsRing h head xs) {test : ν → Bool} {fuel : Nat}
    (hfuel : xs.length < fuel) :
    listForEach h head test fuel (h.next head) = some (xs.find? test) := by
  rw [hr.next_head]
  exact listForEach_walk (List.nodup_cons.mp hr.nodup).1 hfuel hr.walk

/--
**The rule for `list_for_each_safe`.**

`P rest s` says that `rest` is still to be visited in the state `s`. When the node in front always
leads to the next one, and the body may take that node away but leaves the rest to be visited, the
loop visits all of them and ends at the head.
-/
theorem listForEachSafe_rule {σ : Type} (links : σ → Links ν) (head : ν) (body : ν → σ → σ)
    (P : List ν → σ → Prop)
    (hne : ∀ x rest s, P (x :: rest) s → x ≠ head)
    (hnext : ∀ x rest s, P (x :: rest) s → (links s).next x = rest.headD head)
    (hbody : ∀ x rest s, P (x :: rest) s → P rest (body x s)) :
    ∀ (rest : List ν) (fuel : Nat) (s : σ), P rest s → rest.length < fuel →
      ∃ t, listForEachSafe links head body fuel (rest.headD head)
        ((links s).next (rest.headD head)) s = some t ∧ P [] t
  | [], fuel + 1, s, hP, _ => by
    rw [listForEachSafe, List.headD_nil, if_pos rfl]
    exact ⟨s, rfl, hP⟩
  | x :: rest, fuel + 1, s, hP, hfuel => by
    rw [List.headD_cons, listForEachSafe, if_neg (hne x rest s hP), hnext x rest s hP]
    simp only [List.length_cons] at hfuel
    exact listForEachSafe_rule links head body P hne hnext hbody rest fuel _ (hbody x rest s hP)
      (by omega)

end Nwchecker
