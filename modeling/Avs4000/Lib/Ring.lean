import Mathlib.Data.List.Basic
import Mathlib.Data.List.Range
import Mathlib.Data.Nat.ModEq

namespace Ring
set_option autoImplicit true

/-- The `count` slots of a ring of `n` from slot `tail` on. -/
def slots (n tail count : Nat) : List Nat :=
  (List.range count).map fun j => (tail + j) % n

theorem slots_succ (n tail count : Nat) :
    slots n tail (count + 1) = slots n tail count ++ [(tail + count) % n] := by
  simp only [slots, List.range_succ, List.map_append, List.map_cons, List.map_nil]

theorem slots_cons (h : tail < n) (count : Nat) :
    slots n tail (count + 1) = tail :: slots n ((tail + 1) % n) count := by
  simp only [slots, List.range_succ_eq_map, List.map_cons, List.map_map, Nat.add_zero,
    Nat.mod_eq_of_lt h, List.cons.injEq, true_and]
  apply List.map_congr_left
  intro j _
  simp only [Function.comp_apply, Nat.succ_eq_add_one, Nat.mod_add_mod]
  congr 1
  omega

theorem mem_slots : i ∈ slots n tail count ↔ ∃ j < count, (tail + j) % n = i := by
  simp only [slots, List.mem_map, List.mem_range]

theorem offset_inj {tail i j n : Nat} (h : (tail + i) % n = (tail + j) % n) (hi : i < n)
    (hj : j < n) : i = j := by
  have he : i ≡ j [MOD n] := Nat.ModEq.add_left_cancel' tail h
  exact he.eq_of_lt_of_lt hi hj

theorem head_not_mem_slots (h : count < n) : (tail + count) % n ∉ slots n tail count := by
  intro hm
  obtain ⟨j, hj, he⟩ := mem_slots.1 hm
  exact absurd (offset_inj he (by omega) h) (by omega)

theorem tail_mem_slots (h : tail < n) (hc : 0 < count) : tail ∈ slots n tail count :=
  mem_slots.2 ⟨0, hc, Nat.mod_eq_of_lt h⟩

theorem tail_not_mem_rest (h : tail < n) (hc : count < n) :
    tail ∉ slots n ((tail + 1) % n) (count - 1) := by
  intro hm
  obtain ⟨j, hj, he⟩ := mem_slots.1 hm
  rw [Nat.mod_add_mod, Nat.add_assoc] at he
  have he' : (tail + (1 + j)) % n = (tail + 0) % n := by rw [he, Nat.add_zero, Nat.mod_eq_of_lt h]
  exact absurd (offset_inj he' (by omega) (by omega)) (by omega)

end Ring
