import Avs4000.Lib.Run

namespace Sys
set_option autoImplicit true

/-- The coarse actions that the steps of a run take effect as, in the order they do. -/
def effects (step : σ → α → Option σ) (effect : σ → α → Option β) : σ → List α → List β
  | _, [] => []
  | s, a :: as =>
    (effect s a).toList ++ ((step s a).map fun t => effects step effect t as).getD []

/-- A system whose steps each take effect as one step of a coarser system, or as none, goes through
a run of that system. -/
theorem run_effects {step : σ → α → Option σ} {step' : τ → β → Option τ}
    {effect : σ → α → Option β} {I : σ → Prop} {G : α → Prop} {abs : σ → τ}
    (hstep : ∀ s a t, I s → G a → step s a = some t →
      I t ∧ run step' (abs s) (effect s a).toList = some (abs t))
    (h : I s) (hG : ∀ a ∈ as, G a) (hr : run step s as = some t) :
    I t ∧ run step' (abs s) (effects step effect s as) = some (abs t) := by
  induction as generalizing s with
  | nil =>
    cases hr
    exact ⟨h, rfl⟩
  | cons a as ih =>
    obtain ⟨u, hu, hr⟩ := run_cons_eq_some.1 hr
    obtain ⟨hi, heffect⟩ := hstep s a u h (hG a (List.mem_cons_self ..)) hu
    obtain ⟨ht, hrest⟩ := ih hi (fun b hb => hG b (List.mem_cons_of_mem _ hb)) hr
    refine ⟨ht, ?_⟩
    simp only [effects, hu, Option.map_some, Option.getD_some]
    exact run_append_eq_some.2 ⟨abs u, heffect, hrest⟩

/-- What is begun and not yet ended accounts for the difference between the fine actions that begin
something and the coarse ones that end it. -/
theorem effects_count {step : σ → α → Option σ} {effect : σ → α → Option β} {I : σ → Prop}
    {G : α → Prop} {q : β → Bool} {p : α → Bool} {m : σ → Nat}
    (hstep : ∀ s a t, I s → G a → step s a = some t →
      I t ∧ (effect s a).toList.countP q + m t = (if p a then 1 else 0) + m s)
    (h : I s) (hG : ∀ a ∈ as, G a) (hr : run step s as = some t) :
    (effects step effect s as).countP q + m t = as.countP p + m s := by
  induction as generalizing s with
  | nil =>
    cases hr
    rfl
  | cons a as ih =>
    obtain ⟨u, hu, hr⟩ := run_cons_eq_some.1 hr
    obtain ⟨hi, hcount⟩ := hstep s a u h (hG a (List.mem_cons_self ..)) hu
    have hrest := ih hi (fun b hb => hG b (List.mem_cons_of_mem _ hb)) hr
    simp only [effects, hu, Option.map_some, Option.getD_some, List.countP_append, List.countP_cons]
    omega

end Sys
