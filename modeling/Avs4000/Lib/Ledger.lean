import Mathlib.Data.List.Perm.Basic
import Mathlib.Logic.Function.Basic

set_option autoImplicit true

/-- Tokens are numbered in the order they are issued. Those issued so far are each in one place, in
the list or with one holder. -/
structure Ledger (next : Nat) (places : List Nat) (held : κ → Option Nat) : Prop where
  once : places.Nodup
  apart : ∀ k i, held k = some i → i ∉ places
  one : ∀ k l i, held k = some i → held l = some i → k = l
  all : ∀ i, i < next ↔ i ∈ places ∨ ∃ k, held k = some i

namespace Ledger

theorem empty : Ledger 0 [] (fun _ : κ => none) where
  once := List.nodup_nil
  apart _ _ h := nomatch h
  one _ _ _ h := nomatch h
  all i := by
    simp only [Nat.not_lt_zero, List.not_mem_nil, reduceCtorEq, exists_false, or_false]

section
variable {next : Nat} {places : List Nat} {held : κ → Option Nat}

theorem lt_of_mem (h : Ledger next places held) (hi : i ∈ places) : i < next :=
  (h.all i).2 (.inl hi)

theorem lt_of_held (h : Ledger next places held) (hk : held k = some i) : i < next :=
  (h.all i).2 (.inr ⟨k, hk⟩)

theorem next_not_mem (h : Ledger next places held) : next ∉ places :=
  fun hi => Nat.lt_irrefl _ (h.lt_of_mem hi)

theorem perm (h : Ledger next places held) (hp : places'.Perm places) :
    Ledger next places' held where
  once := hp.nodup_iff.2 h.once
  apart k i hk hi := h.apart k i hk (hp.mem_iff.1 hi)
  one := h.one
  all i := by rw [h.all, hp.mem_iff]

theorem issue (h : Ledger next places held) : Ledger (next + 1) (next :: places) held where
  once := List.nodup_cons.2 ⟨h.next_not_mem, h.once⟩
  apart k i hk hi := by
    rcases List.mem_cons.1 hi with rfl | hi
    · exact Nat.lt_irrefl _ (h.lt_of_held hk)
    · exact h.apart k i hk hi
  one := h.one
  all i := by
    rw [Nat.lt_succ_iff_lt_or_eq, h.all i, List.mem_cons, or_right_comm, or_comm (a := i ∈ places)]

variable [DecidableEq κ]

theorem update_some (hu : Function.update held k (some j) l = some i) :
    l = k ∧ i = j ∨ l ≠ k ∧ held l = some i := by
  by_cases hl : l = k
  · subst hl
    rw [Function.update_self] at hu
    exact .inl ⟨rfl, (Option.some.inj hu).symm⟩
  · rw [Function.update_of_ne hl] at hu
    exact .inr ⟨hl, hu⟩

theorem update_none (hu : Function.update held k none l = some i) : l ≠ k ∧ held l = some i := by
  by_cases hl : l = k
  · subst hl
    rw [Function.update_self] at hu
    cases hu
  · rw [Function.update_of_ne hl] at hu
    exact ⟨hl, hu⟩

/-- A token is issued to a holder that has none. -/
theorem issueTo (h : Ledger next places held) (hk : held k = none) :
    Ledger (next + 1) places (Function.update held k (some next)) where
  once := h.once
  apart l i hl := by
    rcases update_some hl with ⟨_, rfl⟩ | ⟨_, hl⟩
    · exact h.next_not_mem
    · exact h.apart l i hl
  one l l' i hl hl' := by
    rcases update_some hl with ⟨rfl, hi⟩ | ⟨_, hi⟩ <;>
      rcases update_some hl' with ⟨rfl, hi'⟩ | ⟨_, hi'⟩
    · rfl
    · exact absurd (hi ▸ h.lt_of_held hi') (Nat.lt_irrefl _)
    · exact absurd (hi' ▸ h.lt_of_held hi) (Nat.lt_irrefl _)
    · exact h.one l l' i hi hi'
  all i := by
    rw [Nat.lt_succ_iff_lt_or_eq, h.all i, or_assoc]
    apply or_congr_right
    constructor
    · rintro (⟨l, hl⟩ | rfl)
      · have hne : l ≠ k := by
          intro he
          subst he
          cases hk.symm.trans hl
        exact ⟨l, (Function.update_of_ne hne ..).trans hl⟩
      · exact ⟨k, Function.update_self ..⟩
    · intro ⟨l, hl⟩
      rcases update_some hl with ⟨_, hi⟩ | ⟨_, hi⟩
      · exact .inr hi
      · exact .inl ⟨l, hi⟩

theorem deposit (h : Ledger next places held) (hk : held k = some i) :
    Ledger next (i :: places) (Function.update held k none) where
  once := List.nodup_cons.2 ⟨h.apart k i hk, h.once⟩
  apart l j hl hj := by
    obtain ⟨hne, hl⟩ := update_none hl
    rcases List.mem_cons.1 hj with rfl | hj
    · exact hne (h.one l k _ hl hk)
    · exact h.apart l j hl hj
  one l l' j hl hl' := h.one l l' j (update_none hl).2 (update_none hl').2
  all j := by
    rw [h.all j, List.mem_cons]
    constructor
    · rintro (hj | ⟨l, hl⟩)
      · exact .inl (.inr hj)
      · by_cases he : l = k
        · subst he
          exact .inl (.inl (Option.some.inj (hl.symm.trans hk)))
        · exact .inr ⟨l, (Function.update_of_ne he ..).trans hl⟩
    · rintro ((rfl | hj) | ⟨l, hl⟩)
      · exact .inr ⟨k, hk⟩
      · exact .inl hj
      · exact .inr ⟨l, (update_none hl).2⟩

end
end Ledger
