import Mathlib.Logic.Function.Iterate

namespace Sys
set_option autoImplicit true

/-- A loop stepped from `s` comes to `t`. -/
def Comes (step : σ → σ) (s t : σ) : Prop := ∃ n, step^[n] s = t

theorem Comes.refl (step : σ → σ) (s : σ) : Comes step s s := ⟨0, rfl⟩

theorem Comes.single {step : σ → σ} (h : step s = t) : Comes step s t := ⟨1, h⟩

theorem Comes.head {step : σ → σ} (h : Comes step (step s) t) : Comes step s t := by
  obtain ⟨n, h⟩ := h
  exact ⟨n + 1, h⟩

theorem Comes.trans {step : σ → σ} (h : Comes step s t) (h' : Comes step t u) :
    Comes step s u := by
  obtain ⟨n, h⟩ := h
  induction n generalizing s with
  | zero =>
    cases h
    exact h'
  | succ n ih => exact (ih h).head

theorem Comes.invariant {step : σ → σ} {I : σ → Prop} (hstep : ∀ s, I s → I (step s))
    (hc : Comes step s t) (h : I s) : I t := by
  obtain ⟨n, rfl⟩ := hc
  induction n generalizing s with
  | zero => exact h
  | succ n ih => exact ih (hstep s h)

end Sys
