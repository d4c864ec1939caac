import Mathlib.Data.List.Basic
import Mathlib.Data.List.Range

namespace Frames
set_option autoImplicit true

/-- The `k`-th run of `n` elements of a list. -/
def frame (n : Nat) (bs : List β) (k : Nat) : List β := (bs.drop (n * k)).take n

theorem length_frame (h : n * (k + 1) ≤ bs.length) : (frame n bs k).length = n := by
  rw [Nat.mul_succ] at h
  rw [frame, List.length_take, List.length_drop, Nat.min_eq_left (by omega)]

theorem getElem?_frame (h : j < n) (bs : List β) (k : Nat) :
    (frame n bs k)[j]? = bs[n * k + j]? := by
  rw [frame, List.getElem?_take_of_lt h, List.getElem?_drop]

theorem frame_append_left (h : n * (k + 1) ≤ bs.length) : frame n (bs ++ cs) k = frame n bs k := by
  rw [Nat.mul_succ] at h
  have hd : n ≤ (bs.drop (n * k)).length := by
    rw [List.length_drop]
    omega
  rw [frame, List.drop_append_of_le_length (by omega), List.take_append_of_le_length hd, frame]

theorem frame_append_right (h : bs.length = n * j) (cs : List β) (k : Nat) :
    frame n (bs ++ cs) (j + k) = frame n cs k := by
  rw [frame, Nat.mul_add, ← h, ← List.drop_drop, List.drop_left, frame]

theorem frame_zero (h : bs.length = n) (cs : List β) : frame n (bs ++ cs) 0 = bs := by
  rw [frame, Nat.mul_zero, List.drop_zero, List.take_left' h]

theorem take_succ_frame (n k : Nat) (bs : List β) :
    bs.take (n * (k + 1)) = bs.take (n * k) ++ frame n bs k := by
  rw [Nat.mul_succ, List.take_add, frame]

theorem flatMap_frame (h : n * c ≤ bs.length) :
    (List.range c).flatMap (frame n bs) = bs.take (n * c) := by
  induction c with
  | zero => rw [Nat.mul_zero, List.take_zero, List.range_zero, List.flatMap_nil]
  | succ c ih =>
    have hc := Nat.le_trans (Nat.mul_le_mul_left n (Nat.le_succ c)) h
    rw [List.range_succ, List.flatMap_append, ih hc, List.flatMap_singleton, take_succ_frame]

theorem length_flatten {ps : List (List β)} (h : ∀ p ∈ ps, p.length = n) :
    ps.flatten.length = n * ps.length := by
  induction ps with
  | nil => rfl
  | cons p ps ih =>
    rw [List.flatten_cons, List.length_append, h p (List.mem_cons_self ..),
      ih fun q hq => h q (List.mem_cons_of_mem _ hq), List.length_cons, Nat.mul_succ, Nat.add_comm]

theorem frame_flatten {ps : List (List β)} (h : ∀ p ∈ ps, p.length = n) (hk : k < ps.length) :
    frame n ps.flatten k = ps[k] := by
  induction ps generalizing k with
  | nil => exact absurd hk (Nat.not_lt_zero k)
  | cons p ps ih =>
    have hp := h p (List.mem_cons_self ..)
    cases k with
    | zero => exact frame_zero hp _
    | succ k =>
      have hps := ih (fun q hq => h q (List.mem_cons_of_mem _ hq)) (Nat.lt_of_succ_lt_succ hk)
      have hr := frame_append_right (hp.trans (Nat.mul_one n).symm) ps.flatten k
      rw [Nat.add_comm 1 k] at hr
      exact hr.trans hps

end Frames
