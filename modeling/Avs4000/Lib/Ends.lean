import Mathlib.Init

namespace Sys
set_option autoImplicit true

/-- The computation throws nothing, and the condition holds of what it returns and of the state
it leads to. -/
def Ends (m : ReaderT ρ (StateT σ (Except ε)) α) (o : ρ) (s : σ) (Q : α → σ → Prop) : Prop :=
  ∃ a t, m o s = .ok (a, t) ∧ Q a t

theorem ends_pure {Q : α → σ → Prop} (h : Q a s) :
    Ends (pure a : ReaderT ρ (StateT σ (Except ε)) α) o s Q :=
  ⟨a, s, rfl, h⟩

theorem ends_modify {Q : PUnit → σ → Prop} (h : Q ⟨⟩ (f s)) :
    Ends (modify f : ReaderT ρ (StateT σ (Except ε)) PUnit) o s Q :=
  ⟨⟨⟩, f s, rfl, h⟩

theorem get_bind {f : σ → ReaderT ρ (StateT σ (Except ε)) β} : (get >>= f) o s = f s o s := rfl

theorem ends_get {f : σ → ReaderT ρ (StateT σ (Except ε)) β} :
    Ends (get >>= f) o s Q ↔ Ends (f s) o s Q :=
  Iff.rfl

theorem ends_read {f : ρ → ReaderT ρ (StateT σ (Except ε)) β} :
    Ends (read >>= f) o s Q ↔ Ends (f o) o s Q :=
  Iff.rfl

theorem bind_of_ok {m : ReaderT ρ (StateT σ (Except ε)) α}
    {f : α → ReaderT ρ (StateT σ (Except ε)) β} (h : m o s = .ok (a, t)) :
    (m >>= f) o s = f a o t := by
  change (m o s).bind (fun r => f r.1 o r.2) = _
  rw [h]
  rfl

theorem bind_of_error {m : ReaderT ρ (StateT σ (Except ε)) α}
    {f : α → ReaderT ρ (StateT σ (Except ε)) β} (h : m o s = .error e) :
    (m >>= f) o s = .error e := by
  change (m o s).bind (fun r => f r.1 o r.2) = _
  rw [h]
  rfl

theorem bind_ok {m : ReaderT ρ (StateT σ (Except ε)) α}
    {f : α → ReaderT ρ (StateT σ (Except ε)) β} (h : (m >>= f) o s = .ok (b, u)) :
    ∃ a t, m o s = .ok (a, t) ∧ f a o t = .ok (b, u) := by
  cases hm : m o s with
  | error e =>
    rw [bind_of_error hm] at h
    cases h
  | ok r =>
    rw [bind_of_ok hm] at h
    exact ⟨r.1, r.2, rfl, h⟩

theorem Ends.mono (h : Ends m o s R) (hq : ∀ a t, R a t → Q a t) : Ends m o s Q := by
  obtain ⟨a, t, hm, hr⟩ := h
  exact ⟨a, t, hm, hq a t hr⟩

theorem Ends.and (h : Ends m o s Q) (h' : Ends m o s R) : Ends m o s fun a t => Q a t ∧ R a t := by
  obtain ⟨a, t, hm, hq⟩ := h
  obtain ⟨b, u, hm', hr⟩ := h'
  cases hm.symm.trans hm'
  exact ⟨a, t, hm, hq, hr⟩

theorem Ends.bind {f : α → ReaderT ρ (StateT σ (Except ε)) β} (h : Ends m o s R)
    (hf : ∀ a t, R a t → Ends (f a) o t Q) : Ends (m >>= f) o s Q := by
  obtain ⟨a, t, hm, hr⟩ := h
  obtain ⟨b, u, hf, hq⟩ := hf a t hr
  exact ⟨b, u, (bind_of_ok hm).trans hf, hq⟩

theorem discard_of_ok {m : ReaderT ρ (StateT σ (Except ε)) α} (h : m o s = .ok (a, t)) :
    discard m o s = .ok (⟨⟩, t) := by
  change (m o s).bind (fun r => .ok (PUnit.unit, r.2)) = _
  rw [h]
  rfl

theorem Ends.discard {m : ReaderT ρ (StateT σ (Except ε)) α} {Q : σ → Prop}
    (h : Ends m o s fun _ t => Q t) :
    Ends (discard m) o s fun _ t => Q t := by
  obtain ⟨a, t, hm, hq⟩ := h
  exact ⟨⟨⟩, t, discard_of_ok hm, hq⟩

theorem discard_of_error {m : ReaderT ρ (StateT σ (Except ε)) α} (h : m o s = .error e) :
    discard m o s = .error e := by
  change (m o s).bind (fun r => .ok (PUnit.unit, r.2)) = _
  rw [h]
  rfl

/-- The computation leaves a part of the state as it is. -/
def Keeps (f : σ → β) (m : ReaderT ρ (StateT σ (Except ε)) α) : Prop :=
  ∀ o s a t, m o s = .ok (a, t) → f t = f s

theorem keeps_pure {f : σ → β} : Keeps f (pure a : ReaderT ρ (StateT σ (Except ε)) α) := by
  intro o s a t h
  cases h
  rfl

theorem keeps_throw {f : σ → β} :
    Keeps f (throw e : ReaderT ρ (StateT σ (Except ε)) α) := by
  intro o s a t h
  cases h

theorem keeps_get {f : σ → β} : Keeps f (get : ReaderT ρ (StateT σ (Except ε)) σ) := by
  intro o s a t h
  cases h
  rfl

theorem keeps_modify {f : σ → β} {g : σ → σ} (h : ∀ s, f (g s) = f s) :
    Keeps f (modify g : ReaderT ρ (StateT σ (Except ε)) PUnit) := by
  intro o s a t hm
  cases hm
  exact h s

theorem Keeps.bind {f : σ → β} {m : ReaderT ρ (StateT σ (Except ε)) α}
    {k : α → ReaderT ρ (StateT σ (Except ε)) γ} (h : Keeps f m) (hk : ∀ a, Keeps f (k a)) :
    Keeps f (m >>= k) := by
  intro o s b u hb
  obtain ⟨a, t, hm, hb⟩ := bind_ok hb
  rw [hk a o t b u hb, h o s a t hm]

theorem Keeps.discard {f : σ → β} {m : ReaderT ρ (StateT σ (Except ε)) α} (h : Keeps f m) :
    Keeps f (discard m) := by
  intro o s a t ht
  cases hm : m o s with
  | error e =>
    rw [discard_of_error hm] at ht
    cases ht
  | ok r =>
    rw [discard_of_ok hm] at ht
    cases ht
    exact h o s r.1 _ hm

/-- Where the computation throws nothing, the condition holds of what it returns. -/
def Yields (Q : α → Prop) (m : ReaderT ρ (StateT σ (Except ε)) α) : Prop :=
  ∀ o s a t, m o s = .ok (a, t) → Q a

theorem yields_pure {Q : α → Prop} (h : Q a) :
    Yields Q (pure a : ReaderT ρ (StateT σ (Except ε)) α) := by
  intro o s b t hb
  cases hb
  exact h

theorem Yields.bind {m : ReaderT ρ (StateT σ (Except ε)) α}
    {k : α → ReaderT ρ (StateT σ (Except ε)) β} (h : Yields R m)
    (hk : ∀ a, R a → Yields Q (k a)) : Yields Q (m >>= k) := by
  intro o s b u hb
  obtain ⟨a, t, hm, hb⟩ := bind_ok hb
  exact hk a (h o s a t hm) o t b u hb

theorem Yields.after {m : ReaderT ρ (StateT σ (Except ε)) α}
    {k : α → ReaderT ρ (StateT σ (Except ε)) β} (hk : ∀ a, Yields Q (k a)) :
    Yields Q (m >>= k) := by
  have htrue : Yields (fun _ => True) m := fun _ _ _ _ _ => trivial
  exact htrue.bind fun a _ => hk a

end Sys
