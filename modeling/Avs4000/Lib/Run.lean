import Mathlib.Init

namespace Sys
set_option autoImplicit true

/-- The state a list of actions leads to, when each of them is enabled in its turn. -/
def run (step : σ → α → Option σ) : σ → List α → Option σ
  | s, [] => some s
  | s, a :: as => (step s a).bind fun t => run step t as

/-- Every action of the list meets the condition in the state it is taken from. -/
def Along (step : σ → α → Option σ) (G : σ → α → Prop) : σ → List α → Prop
  | _, [] => True
  | s, a :: as => G s a ∧ ∀ t, step s a = some t → Along step G t as

theorem run_cons_eq_some {step : σ → α → Option σ} :
    run step s (a :: as) = some u ↔ ∃ t, step s a = some t ∧ run step t as = some u :=
  Option.bind_eq_some_iff

theorem run_append {step : σ → α → Option σ} (as bs : List α) :
    run step s (as ++ bs) = (run step s as).bind fun t => run step t bs := by
  induction as generalizing s with
  | nil => rfl
  | cons a as ih =>
    simp only [List.cons_append, run, Option.bind_assoc]
    congr 1
    funext t
    exact ih

theorem run_append_eq_some {step : σ → α → Option σ} :
    run step s (as ++ bs) = some u ↔ ∃ t, run step s as = some t ∧ run step t bs = some u := by
  rw [run_append]
  exact Option.bind_eq_some_iff

theorem along_true (step : σ → α → Option σ) (s : σ) (as : List α) :
    Along step (fun _ _ => True) s as := by
  induction as generalizing s with
  | nil => trivial
  | cons a as ih => exact ⟨trivial, fun t _ => ih t⟩

theorem along_of_always {step : σ → α → Option σ} (h : ∀ a ∈ as, ∀ s, G s a) (s : σ) :
    Along step G s as := by
  induction as generalizing s with
  | nil => trivial
  | cons a as ih =>
    have has : ∀ b ∈ as, ∀ s, G s b := fun b hb => h b (List.mem_cons_of_mem _ hb)
    exact ⟨h a (List.mem_cons_self ..) s, fun t _ => ih has t⟩

theorem along_of_forall {step : σ → α → Option σ} {P : α → Prop} (h : ∀ a ∈ as, P a) (s : σ) :
    Along step (fun _ a => P a) s as :=
  along_of_always (fun a ha _ => h a ha) s

/-- Along a run whose actions are all enabled, a condition on the actions is one on all of them. -/
theorem along_iff_forall {step : σ → α → Option σ} {P : α → Prop}
    (hr : run step s as = some t) : Along step (fun _ a => P a) s as ↔ ∀ a ∈ as, P a := by
  refine ⟨fun h => ?_, fun h => along_of_forall h s⟩
  induction as generalizing s with
  | nil => exact fun a ha => False.elim (List.not_mem_nil ha)
  | cons a as ih =>
    obtain ⟨u, hu, hr⟩ := run_cons_eq_some.1 hr
    intro b hb
    rcases List.mem_cons.1 hb with rfl | hb
    · exact h.1
    · exact ih hr (h.2 u hu) b hb

theorem along_congr {step : σ → α → Option σ} {I : σ → Prop}
    (hinv : ∀ s a t, I s → step s a = some t → I t) (hG : ∀ s a, I s → (G s a ↔ H s a)) (h : I s)
    (as : List α) : Along step G s as ↔ Along step H s as := by
  induction as generalizing s with
  | nil => exact Iff.rfl
  | cons a as ih =>
    exact and_congr (hG s a h) (forall_congr' fun t => forall_congr' fun ht =>
      ih (hinv s a t h ht))

theorem Along.cons {step : σ → α → Option σ} (h : G s a) (hs : step s a = some t)
    (ht : Along step G t as) : Along step G s (a :: as) :=
  ⟨h, fun _ hu => Option.some.inj (hs.symm.trans hu) ▸ ht⟩

theorem Along.append {step : σ → α → Option σ} (h : Along step G s (as ++ bs)) :
    Along step G s as ∧ ∀ t, run step s as = some t → Along step G t bs := by
  induction as generalizing s with
  | nil =>
    refine ⟨trivial, fun t ht => ?_⟩
    cases ht
    exact h
  | cons a as ih =>
    refine ⟨⟨h.1, fun u hu => (ih (h.2 u hu)).1⟩, fun t ht => ?_⟩
    obtain ⟨u, hu, hr⟩ := run_cons_eq_some.1 ht
    exact (ih (h.2 u hu)).2 t hr

theorem Along.and {step : σ → α → Option σ} (hG : Along step G s as) (hH : Along step H s as) :
    Along step (fun s a => G s a ∧ H s a) s as := by
  induction as generalizing s with
  | nil => trivial
  | cons a as ih => exact ⟨⟨hG.1, hH.1⟩, fun t ht => ih (hG.2 t ht) (hH.2 t ht)⟩

theorem Along.concat {step : σ → α → Option σ} (h : Along step G s as)
    (hr : run step s as = some t) (hbs : Along step G t bs) : Along step G s (as ++ bs) := by
  induction as generalizing s with
  | nil =>
    cases hr
    exact hbs
  | cons a as ih =>
    obtain ⟨u, hu, hr⟩ := run_cons_eq_some.1 hr
    exact .cons h.1 hu (ih (h.2 u hu) hr)

/-- What holds at the start and is kept by every step that meets the condition holds at the
end of a run all of whose steps meet it. -/
theorem run_induction {step : σ → α → Option σ} {I : σ → Prop}
    (hstep : ∀ s a t, I s → G s a → step s a = some t → I t)
    (h : I s) (hG : Along step G s as) (hr : run step s as = some t) : I t := by
  induction as generalizing s with
  | nil =>
    cases hr
    exact h
  | cons a as ih =>
    obtain ⟨u, hu, hr⟩ := run_cons_eq_some.1 hr
    exact ih (hstep s a u h hG.1 hu) (hG.2 u hu) hr

theorem run_invariant {step : σ → α → Option σ} {I : σ → Prop}
    (hstep : ∀ s a t, I s → step s a = some t → I t)
    (h : I s) (hr : run step s as = some t) : I t :=
  run_induction (G := fun _ _ => True) (fun s a t hs _ ht => hstep s a t hs ht) h
    (along_true step s as) hr

/-- What no step undoes is kept off by a run exactly if all of its steps meet the condition that
keeps it off. -/
theorem not_iff_along {step : σ → α → Option σ} {I B : σ → Prop}
    (hinv : ∀ s a t, I s → step s a = some t → I t)
    (hstep : ∀ s a t, I s → step s a = some t → (B t ↔ B s ∨ ¬G s a))
    (h : I s) (hs : ¬B s) (hr : run step s as = some t) : ¬B t ↔ Along step G s as := by
  have hkept : ∀ s' as', I s' → B s' → run step s' as' = some t → B t := by
    intro s' as' hi hb hr
    exact (run_invariant (I := fun s => I s ∧ B s)
      (fun s a t hs ht => ⟨hinv s a t hs.1 ht, (hstep s a t hs.1 ht).2 (.inl hs.2)⟩) ⟨hi, hb⟩ hr).2
  induction as generalizing s with
  | nil =>
    cases hr
    exact ⟨fun _ => trivial, fun _ => hs⟩
  | cons a as ih =>
    obtain ⟨u, hu, hr⟩ := run_cons_eq_some.1 hr
    have hiff := hstep s a u h hu
    by_cases hG : G s a
    · have hu' : ¬B u := fun hb => (hiff.1 hb).elim hs fun hn => hn hG
      refine (ih (hinv s a u h hu) hu' hr).trans ⟨fun ha => .cons hG hu ha, fun ha => ha.2 u hu⟩
    · exact ⟨fun ht => absurd (hkept u as (hinv s a u h hu) (hiff.2 (.inr hG)) hr) ht,
        fun ha => absurd ha.1 hG⟩

/-- Where only steps that miss a condition lead out of what holds of every state so far, it holds
of every state of a run exactly if all of its steps meet the condition. -/
theorem forall_reached_iff_along {step : σ → α → Option σ} {I P : σ → Prop} (hP : ∀ s, I s → P s)
    (hstep : ∀ s a t, I s → H s a → step s a = some t → (G s a → I t) ∧ (¬G s a → ¬P t))
    (h : I s) (hH : Along step H s as) (hr : run step s as = some t) :
    (∀ pre post u, as = pre ++ post → run step s pre = some u → P u) ↔ Along step G s as := by
  induction as generalizing s with
  | nil =>
    refine ⟨fun _ => trivial, fun _ pre post u he hu => ?_⟩
    obtain ⟨rfl, _⟩ := List.append_eq_nil_iff.1 he.symm
    cases hu
    exact hP _ h
  | cons a as ih =>
    obtain ⟨u, hu, hr⟩ := run_cons_eq_some.1 hr
    obtain ⟨hgood, hbad⟩ := hstep s a u h hH.1 hu
    constructor
    · intro hall
      have hG : G s a := by
        apply Classical.byContradiction
        exact fun hn => hbad hn (hall [a] as u rfl (run_cons_eq_some.2 ⟨u, hu, rfl⟩))
      refine .cons hG hu ((ih (hgood hG) (hH.2 u hu) hr).1 fun pre post v he hv => ?_)
      exact hall (a :: pre) post v (congrArg (a :: ·) he) (run_cons_eq_some.2 ⟨u, hu, hv⟩)
    · intro hG pre post v he hv
      cases pre with
      | nil =>
        cases hv
        exact hP _ h
      | cons b pre =>
        obtain ⟨rfl, rfl⟩ := List.cons.inj he
        obtain ⟨u', hu', hv⟩ := run_cons_eq_some.1 hv
        cases hu.symm.trans hu'
        exact (ih (hgood hG.1) (hH.2 u hu) hr).2 (hG.2 u hu) pre post v rfl hv

end Sys
