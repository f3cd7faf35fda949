import Mathlib.Data.List.Perm.Basic

/-!
# A network that loses and copies

Datagrams in flight, in no order that matters. What is lost is written down, and so is what is in
flight without having been sent for a reason: copies, and what somebody sends unasked.

`Owes n p a` is the balance for the datagrams `p`: of those that were sent for a reason, `a` more
than have been received.

* `Network.forall_send`, `Network.forall_took`, `Network.forall_lose`, `Network.forall_spawn` — what
  holds of everything in flight
* `Owes.send`, `Owes.took`, `Owes.lose`, `Owes.spawn` — what the operations do to it
* `Owes.flying_iff` — when one is owed, nothing is in flight exactly if one more was lost than came
  without a reason
-/

namespace Postal

variable {δ : Type*} {p : δ → Bool} {d : δ} {k : Nat} {a : Int}

structure Network (δ : Type*) where
  flying : List δ
  lost : List δ
  /-- Put into flight without a reason. -/
  extra : List δ
  deriving DecidableEq, Repr

namespace Network

def empty : Network δ where
  flying := []
  lost := []
  extra := []

variable (n : Network δ)

def send (d : δ) : Network δ := { n with flying := n.flying ++ [d] }

/-- The datagram `k` has been received. -/
def took (k : Nat) : Network δ := { n with flying := n.flying.eraseIdx k }

/-- The datagram `k`, which is `d`, is lost. -/
def lose (k : Nat) (d : δ) : Network δ :=
  { n with flying := n.flying.eraseIdx k, lost := n.lost ++ [d] }

def spawn (d : δ) : Network δ := { n with flying := n.flying ++ [d], extra := n.extra ++ [d] }

variable {n} {P : δ → Prop}

theorem forall_send (h : ∀ x ∈ n.flying, P x) (hd : P d) : ∀ x ∈ (n.send d).flying, P x :=
  List.forall_mem_append.mpr ⟨h, List.forall_mem_singleton.mpr hd⟩

theorem forall_took (h : ∀ x ∈ n.flying, P x) (k : Nat) : ∀ x ∈ (n.took k).flying, P x :=
  fun x hx => h x (List.mem_of_mem_eraseIdx hx)

theorem forall_lose (h : ∀ x ∈ n.flying, P x) (k : Nat) (d : δ) :
    ∀ x ∈ (n.lose k d).flying, P x :=
  fun x hx => h x (List.mem_of_mem_eraseIdx hx)

theorem forall_spawn (h : ∀ x ∈ n.flying, P x) (hd : P d) : ∀ x ∈ (n.spawn d).flying, P x :=
  List.forall_mem_append.mpr ⟨h, List.forall_mem_singleton.mpr hd⟩

end Network

/-- One for a datagram that is counted. -/
def one (p : δ → Bool) (d : δ) : Int := if p d then 1 else 0

theorem countP_concat (p : δ → Bool) (l : List δ) (d : δ) :
    ((l ++ [d]).countP p : Int) = l.countP p + one p d := by
  rw [List.countP_append, List.countP_singleton, one]
  split
  · rfl
  · rfl

theorem countP_eraseIdx {l : List δ} (h : l[k]? = some d) :
    ((l.eraseIdx k).countP p : Int) = l.countP p - one p d := by
  obtain ⟨hk, rfl⟩ := List.getElem?_eq_some_iff.mp h
  have hperm := (List.getElem_cons_eraseIdx_perm hk).countP_eq p
  rw [List.countP_cons] at hperm
  rw [one, ← hperm]
  split
  · omega
  · omega

/-- The balance for the datagrams `p`. -/
def Owes (n : Network δ) (p : δ → Bool) (a : Int) : Prop :=
  (n.flying.countP p : Int) + n.lost.countP p = a + n.extra.countP p

variable {n : Network δ}

theorem owes_empty (p : δ → Bool) : Owes (.empty : Network δ) p 0 := rfl

theorem Owes.send (h : Owes n p a) (d : δ) : Owes (n.send d) p (a + one p d) := by
  unfold Owes at *
  have hflying := countP_concat p n.flying d
  show ((n.flying ++ [d]).countP p : Int) + n.lost.countP p = _ + n.extra.countP p
  omega

theorem Owes.took (h : Owes n p a) (hk : n.flying[k]? = some d) :
    Owes (n.took k) p (a - one p d) := by
  unfold Owes at *
  have hflying := countP_eraseIdx (p := p) hk
  show ((n.flying.eraseIdx k).countP p : Int) + n.lost.countP p = _ + n.extra.countP p
  omega

theorem Owes.lose (h : Owes n p a) (hk : n.flying[k]? = some d) : Owes (n.lose k d) p a := by
  unfold Owes at *
  have hflying := countP_eraseIdx (p := p) hk
  have hlost := countP_concat p n.lost d
  show ((n.flying.eraseIdx k).countP p : Int) + (n.lost ++ [d]).countP p = _ + n.extra.countP p
  omega

theorem Owes.spawn (h : Owes n p a) (d : δ) : Owes (n.spawn d) p a := by
  unfold Owes at *
  have hflying := countP_concat p n.flying d
  have hextra := countP_concat p n.extra d
  show ((n.flying ++ [d]).countP p : Int) + n.lost.countP p = _ + (n.extra ++ [d]).countP p
  omega

/-- What has been received is answered by a datagram of the same kind. -/
theorem Owes.answer (h : Owes n p a) (hk : n.flying[k]? = some d) {d' : δ}
    (hkind : p d' = p d) : Owes ((n.took k).send d') p a := by
  have hboth := (h.took hk).send d'
  rw [one, one, hkind, Int.sub_add_cancel] at hboth
  exact hboth

/-- When one datagram is owed, something is on the way, unless too much was lost. -/
theorem Owes.flying_iff (h : Owes n p 1) :
    (∀ d ∈ n.flying, p d = false) ↔ n.lost.countP p = n.extra.countP p + 1 := by
  have hnone : (∀ d ∈ n.flying, p d = false) ↔ n.flying.countP p = 0 := by
    simp only [List.countP_eq_zero, Bool.not_eq_true]
  unfold Owes at h
  rw [hnone]
  omega

end Postal
