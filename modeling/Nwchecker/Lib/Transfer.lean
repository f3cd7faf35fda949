import Mathlib.Data.List.Basic
import Mathlib.Data.List.Infix

/-!
# Partial transfers

A writer offers one block after the other to a stream, and the stream takes an initial part of
each. What arrives is the concatenation of the parts, and the writer means the concatenation of
the blocks. The two agree as long as no block but the last is cut short.

`offered` and `taken` are functions of the record that a write leaves, so that any kind of record
can be used.
-/

namespace Transfer

variable {α β : Type*} {offered taken : β → List α}

/-- Blocks that are taken in full arrive as they are. -/
theorem flatten_of_all : ∀ {ws : List β}, (∀ w ∈ ws, taken w = offered w) →
    (ws.map taken).flatten = (ws.map offered).flatten := by
  intro ws h
  rw [List.map_congr_left h]

/-- No more arrives than was offered. -/
theorem length_flatten_le {ws : List β} (h : ∀ w ∈ ws, taken w <+: offered w) :
    (ws.map taken).flatten.length ≤ (ws.map offered).flatten.length := by
  induction ws with
  | nil => exact Nat.le_refl _
  | cons w ws ih =>
    have hw := (h w List.mem_cons_self).length_le
    have hrest := ih fun v hv => h v (List.mem_cons_of_mem w hv)
    simp only [List.map_cons, List.flatten_cons, List.length_append]
    omega

/-- When as much arrives as was offered, every block was taken in full. -/
theorem taken_eq_of_length {ws : List β} (h : ∀ w ∈ ws, taken w <+: offered w)
    (hlen : (ws.map offered).flatten.length ≤ (ws.map taken).flatten.length) :
    ∀ w ∈ ws, taken w = offered w := by
  induction ws with
  | nil => exact fun w hw => absurd hw List.not_mem_nil
  | cons v ws ih =>
    have hv := h v List.mem_cons_self
    have hws : ∀ w ∈ ws, taken w <+: offered w := fun w hw => h w (List.mem_cons_of_mem v hw)
    have hle := hv.length_le
    have hrest := length_flatten_le hws
    simp only [List.map_cons, List.flatten_cons, List.length_append] at hlen
    intro w hw
    rcases List.mem_cons.mp hw with rfl | hw
    · exact hv.eq_of_length_le (by omega)
    · exact ih hws (by omega) w hw

/--
**A short write may only be the last one.** Then what arrives is a prefix of the concatenation of
the blocks.
-/
theorem flatten_isInitial : ∀ {ws : List β}, (∀ w ∈ ws.dropLast, taken w = offered w) →
    (∀ w ∈ ws, taken w <+: offered w) →
    (ws.map taken).flatten <+: (ws.map offered).flatten
  | [], _, _ => List.prefix_rfl
  | [w], _, h => by simpa using h w List.mem_cons_self
  | v :: w :: ws, hfull, h => by
    have hv : taken v = offered v := hfull v (by simp)
    have hrest : ((w :: ws).map taken).flatten <+: ((w :: ws).map offered).flatten :=
      flatten_isInitial (fun u hu => hfull u (List.mem_cons_of_mem v hu))
        (fun u hu => h u (List.mem_cons_of_mem v hu))
    rw [List.map_cons, List.map_cons, List.flatten_cons, List.flatten_cons, hv]
    exact (List.prefix_append_right_inj _).mpr hrest

end Transfer
