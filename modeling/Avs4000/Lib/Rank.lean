import Avs4000.Lib.Run

namespace Sys
set_option autoImplicit true

/-- A party whose own steps lower a rank that no other step raises takes no more of them than the
rank it started from. -/
theorem run_rank {step : σ → α → Option σ} {I : σ → Prop} {G : α → Prop} {own : α → Bool}
    {rank : σ → Nat} (hstep : ∀ s a t, I s → G a → step s a = some t →
      I t ∧ rank t + (if own a then 1 else 0) ≤ rank s)
    (h : I s) (hG : ∀ a ∈ as, G a) (hr : run step s as = some t) :
    I t ∧ rank t + as.countP own ≤ rank s := by
  induction as generalizing s with
  | nil =>
    cases hr
    exact ⟨h, Nat.le_refl _⟩
  | cons a as ih =>
    obtain ⟨u, hu, hr⟩ := run_cons_eq_some.1 hr
    obtain ⟨hi, hle⟩ := hstep s a u h (hG a (List.mem_cons_self ..)) hu
    obtain ⟨ht, hrest⟩ := ih hi (fun b hb => hG b (List.mem_cons_of_mem _ hb)) hr
    rw [List.countP_cons]
    exact ⟨ht, by omega⟩

/-- Each step of a kind uses up some rank, and rank comes only with what a counter says. -/
theorem run_credit {step : σ → α → Option σ} {I : σ → Prop} {G : α → Prop} {K : α → Bool}
    {r c : σ → Nat} (hstep : ∀ s a t, I s → G a → step s a = some t →
      I t ∧ r t + (if K a then 1 else 0) + c s ≤ r s + c t)
    (h : I s) (hG : ∀ a ∈ as, G a) (hr : run step s as = some t) :
    I t ∧ r t + as.countP K + c s ≤ r s + c t := by
  induction as generalizing s with
  | nil =>
    cases hr
    exact ⟨h, Nat.le_refl _⟩
  | cons a as ih =>
    obtain ⟨u, hu, hr⟩ := run_cons_eq_some.1 hr
    obtain ⟨hi, hle⟩ := hstep s a u h (hG a (List.mem_cons_self ..)) hu
    obtain ⟨ht, hrest⟩ := ih hi (fun b hb => hG b (List.mem_cons_of_mem _ hb)) hr
    rw [List.countP_cons]
    exact ⟨ht, by omega⟩

/-- If from every state that is not at rest a few steps lead to a lower rank, then enough of them
lead to rest. -/
theorem exists_rest {step : σ → α → Option σ} {I D : σ → Prop} {G : α → Prop} {rank : σ → Nat}
    {k : Nat} (hadv : ∀ s, I s → D s ∨ ∃ as t, as.length ≤ k ∧ (∀ a ∈ as, G a) ∧
      run step s as = some t ∧ I t ∧ rank t < rank s) (h : I s) :
    ∃ as t, as.length ≤ k * rank s ∧ (∀ a ∈ as, G a) ∧ run step s as = some t ∧ D t ∧ I t := by
  generalize hn : rank s = n
  induction n using Nat.strongRecOn generalizing s with
  | ind n ih =>
    rcases hadv s h with hd | ⟨as, t, hk, hG, hr, hi, hlt⟩
    · exact ⟨[], s, Nat.zero_le _, nofun, rfl, hd, h⟩
    · subst hn
      obtain ⟨bs, u, hlen, hG', hr', hd, hu⟩ := ih (rank t) hlt hi rfl
      refine ⟨as ++ bs, u, ?_, fun a ha => ?_, run_append_eq_some.2 ⟨t, hr, hr'⟩, hd, hu⟩
      · calc
          (as ++ bs).length = bs.length + as.length := by rw [List.length_append, Nat.add_comm]
          _ ≤ k * rank t + k := Nat.add_le_add hlen hk
          _ ≤ k * rank s := Nat.mul_le_mul_left k hlt
      · exact (List.mem_append.1 ha).elim (hG a) (hG' a)

/-- The turns of a loop that moves `n` items into pieces of `w`, the first of which has `p` items
already. -/
def turns (w p n : Nat) : Nat := if n = 0 then 0 else (p + n - 1) / w + 1

@[simp] theorem turns_zero (w p : Nat) : turns w p 0 = 0 := rfl

theorem turns_pos (w p : Nat) (hn : 0 < n) : 0 < turns w p n := by
  rw [turns, if_neg (Nat.pos_iff_ne_zero.1 hn)]
  exact Nat.succ_pos _

theorem turns_turn (hp : p < w) (hn : 0 < n) (ha : amt = if n > w - p then w - p else n) :
    turns w p n = turns w (if p + amt = w then 0 else p + amt) (n - amt) + 1 := by
  have hne : n ≠ 0 := Nat.pos_iff_ne_zero.1 hn
  by_cases hgt : n > w - p
  · rw [if_pos hgt] at ha
    subst ha
    have hfull : p + (w - p) = w := Nat.add_sub_cancel' (Nat.le_of_lt hp)
    have hrest : n - (w - p) ≠ 0 := Nat.sub_ne_zero_of_lt hgt
    have hsum : p + n - 1 = 0 + (n - (w - p)) - 1 + w := by omega
    rw [if_pos hfull, turns, if_neg hne, turns, if_neg hrest, hsum,
      Nat.add_div_right _ (Nat.zero_lt_of_lt hp)]
  · rw [if_neg hgt] at ha
    subst ha
    have hlt : p + amt - 1 < w := by omega
    rw [Nat.sub_self, turns_zero, turns, if_neg hne, Nat.div_eq_of_lt hlt]

end Sys
