import Mathlib.Data.Set.Basic

namespace Ownership
set_option autoImplicit true

/-- The things that are alive, and those somebody is going to release. -/
structure Owners (ι : Type u) where
  alive : Set ι
  kept : Set ι

/-- Something is alive that nobody is going to release. -/
def Owners.Lost (s : Owners ι) : Prop := ∃ i ∈ s.alive, i ∉ s.kept

/-- Some things are released by who keeps them, some are no longer kept but live on, and some are
made and kept. -/
structure Moves (s t : Owners ι) (released dropped made : Set ι) : Prop where
  alive : ∀ i, i ∈ t.alive ↔ i ∈ s.alive ∧ i ∉ released ∨ i ∈ made
  kept : ∀ i ∈ t.alive, i ∈ t.kept ↔ i ∈ s.kept ∧ i ∉ dropped ∨ i ∈ made
  of_released : ∀ i ∈ released, i ∈ s.kept
  of_dropped : ∀ i ∈ dropped, i ∈ s.alive ∧ i ∉ released
  of_made : ∀ i ∈ made, i ∉ s.alive

section
variable {s t : Owners ι} {released dropped made : Set ι}

theorem Moves.release (ha : ∀ i, i ∈ t.alive ↔ i ∈ s.alive ∧ i ∉ released)
    (hk : ∀ i ∈ t.alive, i ∈ t.kept ↔ i ∈ s.kept) (hr : ∀ i ∈ released, i ∈ s.kept) :
    Moves s t released ∅ ∅ where
  alive i := (ha i).trans (or_iff_left id).symm
  kept i hi := (hk i hi).trans ((and_iff_left not_false).symm.trans (or_iff_left id).symm)
  of_released := hr
  of_dropped _ := False.elim
  of_made _ := False.elim

theorem Moves.refl (s : Owners ι) : Moves s s ∅ ∅ ∅ :=
  .release (fun _ => (and_iff_left not_false).symm) (fun _ _ => Iff.rfl) fun _ => False.elim

theorem Moves.drop (ha : ∀ i, i ∈ t.alive ↔ i ∈ s.alive)
    (hk : ∀ i ∈ t.alive, i ∈ t.kept ↔ i ∈ s.kept ∧ i ∉ dropped)
    (hd : ∀ i ∈ dropped, i ∈ s.alive) : Moves s t ∅ dropped ∅ where
  alive i := (ha i).trans ((and_iff_left not_false).symm.trans (or_iff_left id).symm)
  kept i hi := (hk i hi).trans (or_iff_left id).symm
  of_released _ := False.elim
  of_dropped i hi := ⟨hd i hi, not_false⟩
  of_made _ := False.elim

theorem Moves.lost_iff (h : Moves s t released dropped made) :
    t.Lost ↔ s.Lost ∨ dropped.Nonempty := by
  constructor
  · rintro ⟨i, hi, hk⟩
    have hk' := fun h' => hk ((h.kept i hi).2 h')
    rcases (h.alive i).1 hi with ⟨ha, _⟩ | hm
    · by_cases hd : i ∈ dropped
      · exact .inr ⟨i, hd⟩
      · exact .inl ⟨i, ha, fun hs => hk' (.inl ⟨hs, hd⟩)⟩
    · exact absurd (.inr hm) hk'
  · rintro (⟨i, hi, hk⟩ | ⟨i, hd⟩)
    · have ha : i ∈ t.alive := (h.alive i).2 (.inl ⟨hi, fun hr => hk (h.of_released i hr)⟩)
      refine ⟨i, ha, fun ht => ?_⟩
      rcases (h.kept i ha).1 ht with ⟨hs, _⟩ | hm
      · exact hk hs
      · exact h.of_made i hm hi
    · obtain ⟨hi, hr⟩ := h.of_dropped i hd
      have ha : i ∈ t.alive := (h.alive i).2 (.inl ⟨hi, hr⟩)
      refine ⟨i, ha, fun ht => ?_⟩
      rcases (h.kept i ha).1 ht with ⟨_, hn⟩ | hm
      · exact hn hd
      · exact h.of_made i hm hi

end

end Ownership
