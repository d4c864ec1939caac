import Mathlib.Init

namespace Log
set_option autoImplicit true

/-- What the accepted entries make of a state, where those in `before` come first. Whether an entry
is accepted may depend on all that came before it. -/
def replayFrom (accept : List β → Bool) (apply : β → σ → σ) (before : List β) (s : σ) :
    List β → σ
  | [] => s
  | r :: rs =>
    replayFrom accept apply (before ++ [r])
      (if accept (before ++ [r]) then apply r s else s) rs

/-- What the accepted entries of a log make of a state. -/
def replay (accept : List β → Bool) (apply : β → σ → σ) (s : σ) (log : List β) : σ :=
  replayFrom accept apply [] s log

section
variable {accept : List β → Bool} {apply : β → σ → σ}

theorem replayFrom_append (before xs ys : List β) (s : σ) :
    replayFrom accept apply before s (xs ++ ys) =
      replayFrom accept apply (before ++ xs) (replayFrom accept apply before s xs) ys := by
  induction xs generalizing before s with
  | nil => rw [List.append_nil]; rfl
  | cons x xs ih =>
    rw [List.cons_append, replayFrom, ih, replayFrom, List.append_assoc, List.singleton_append]

theorem replay_concat (s : σ) (log : List β) (r : β) :
    replay accept apply s (log ++ [r]) =
      if accept (log ++ [r]) then apply r (replay accept apply s log)
      else replay accept apply s log := by
  rw [replay, replayFrom_append]
  rfl

theorem replay_skip {s : σ} {log sent : List β} (h : ∀ r ∈ sent, ∀ s, apply r s = s) :
    replay accept apply s (log ++ sent) = replay accept apply s log := by
  induction sent generalizing log with
  | nil => rw [List.append_nil]
  | cons r sent ih =>
    have hrest : ∀ q ∈ sent, ∀ s, apply q s = s := fun q hq => h q (List.mem_cons_of_mem _ hq)
    rw [← List.singleton_append, ← List.append_assoc, ih hrest, replay_concat,
      h r (List.mem_cons_self ..), ite_self]

theorem replayFrom_congr {accept' : List β → Bool} (before : List β) (s : σ) {log : List β}
    (h : ∀ pre r post, log = pre ++ r :: post →
      accept (before ++ pre ++ [r]) = accept' (before ++ pre ++ [r]) ∨ ∀ s, apply r s = s) :
    replayFrom accept apply before s log = replayFrom accept' apply before s log := by
  induction log generalizing before s with
  | nil => rfl
  | cons r rs ih =>
    have hrest : ∀ pre q post, rs = pre ++ q :: post →
        accept (before ++ [r] ++ pre ++ [q]) = accept' (before ++ [r] ++ pre ++ [q]) ∨
          ∀ s, apply q s = s := by
      intro pre q post he
      have hq := h (r :: pre) q post (congrArg (r :: ·) he)
      rwa [List.append_cons before r pre] at hq
    have hr := h [] r rs rfl
    rw [List.append_nil] at hr
    rw [replayFrom, replayFrom, ih _ _ hrest]
    rcases hr with he | hs
    · rw [he]
    · rw [hs, ite_self, ite_self]

theorem replay_congr {accept' : List β → Bool} {s : σ} {log : List β}
    (h : ∀ pre r post, log = pre ++ r :: post →
      accept (pre ++ [r]) = accept' (pre ++ [r]) ∨ ∀ s, apply r s = s) :
    replay accept apply s log = replay accept' apply s log :=
  replayFrom_congr [] s h

end

/-- The computation adds to the log of the state only, and only what meets the condition. -/
def Appends (log : σ → List β) (P : β → Prop) (m : ReaderT ρ (StateM σ) α) : Prop :=
  ∀ o s, ∃ sent, log (m o s).2 = log s ++ sent ∧ ∀ r ∈ sent, P r

section
variable {log : σ → List β} {P : β → Prop}

theorem Appends.bind {m : ReaderT ρ (StateM σ) α} {f : α → ReaderT ρ (StateM σ) γ}
    (h : Appends log P m) (hf : ∀ a, Appends log P (f a)) : Appends log P (m >>= f) := by
  intro o s
  obtain ⟨sent, hlog, hsent⟩ := h o s
  obtain ⟨more, hlog', hmore⟩ := hf (m o s).1 o (m o s).2
  refine ⟨sent ++ more, ?_, fun r hr => ?_⟩
  · rw [← List.append_assoc, ← hlog]
    exact hlog'
  · rcases List.mem_append.1 hr with hr | hr
    · exact hsent r hr
    · exact hmore r hr

theorem Appends.mono {m : ReaderT ρ (StateM σ) α} {Q : β → Prop} (h : Appends log P m)
    (hq : ∀ r, P r → Q r) : Appends log Q m := by
  intro o s
  obtain ⟨sent, hlog, hsent⟩ := h o s
  exact ⟨sent, hlog, fun r hr => hq r (hsent r hr)⟩

end

end Log
