import Mathlib.Data.List.Basic

namespace Lines
set_option autoImplicit true

/-- A line with its separator at the end. -/
def IsLine (sep : β) (l : List β) : Prop := ∃ w, sep ∉ w ∧ l = w ++ [sep]

theorem IsLine.mem (h : IsLine sep l) : sep ∈ l := by
  obtain ⟨w, _, rfl⟩ := h
  exact List.mem_append_right _ (List.mem_singleton_self _)

theorem IsLine.append (h : sep ∉ w) (hl : IsLine sep l) : IsLine sep (w ++ l) := by
  obtain ⟨w', hw, rfl⟩ := hl
  refine ⟨w ++ w', fun hm => ?_, (List.append_assoc ..).symm⟩
  exact (List.mem_append.1 hm).elim h hw

theorem prefix_line (hl : IsLine sep l) (hq : sep ∉ q ∨ IsLine sep q) (h : q <+: l ++ rest) :
    q <+: l := by
  rcases List.prefix_or_prefix_of_prefix h (List.prefix_append l rest) with hql | hlq
  · exact hql
  · rcases hq with hq | ⟨w, hw, rfl⟩
    · exact absurd (hlq.subset hl.mem) hq
    · rcases List.prefix_concat_iff.1 hlq with rfl | hlw
      · exact List.prefix_rfl
      · exact absurd (hlw.subset hl.mem) hw

variable [DecidableEq β] (sep : β)

/-- The first line, or everything if no line is complete, and what comes after it. -/
def readLine (bs : List β) : List β × List β :=
  let n := (bs.takeWhile fun b => decide (b ≠ sep)).length + 1
  (bs.take n, bs.drop n)

/-- The complete lines, when the first one begins with `cur`. -/
def linesFrom (cur : List β) : List β → List (List β)
  | [] => []
  | b :: bs => if b = sep then (cur ++ [b]) :: linesFrom [] bs else linesFrom (cur ++ [b]) bs

/-- The complete lines. -/
def linesOf (bs : List β) : List (List β) := linesFrom sep [] bs

section
variable {sep : β}

theorem takeWhile_ne (h : sep ∉ w) (bs : List β) :
    (w ++ bs).takeWhile (fun b => decide (b ≠ sep)) =
      w ++ bs.takeWhile fun b => decide (b ≠ sep) := by
  apply List.takeWhile_append_of_pos
  intro b hb
  exact decide_eq_true fun he => h (he ▸ hb)

theorem readLine_line (h : IsLine sep l) (bs : List β) : readLine sep (l ++ bs) = (l, bs) := by
  obtain ⟨w, hw, rfl⟩ := h
  have hlen : ((w ++ [sep] ++ bs).takeWhile fun b => decide (b ≠ sep)).length + 1 =
      (w ++ [sep]).length := by
    rw [List.append_assoc, takeWhile_ne hw, List.singleton_append, List.takeWhile_cons_of_neg,
      List.append_nil, List.length_append, List.length_singleton]
    simp
  rw [readLine]
  simp only [hlen, List.take_left, List.drop_left]

theorem readLine_partial (h : sep ∉ bs) : readLine sep bs = (bs, []) := by
  have hlen : (bs.takeWhile fun b => decide (b ≠ sep)).length = bs.length := by
    have ht := takeWhile_ne h []
    rw [List.append_nil, List.takeWhile_nil, List.append_nil] at ht
    rw [ht]
  rw [readLine]
  simp only [hlen]
  rw [List.take_of_length_le (Nat.le_succ _), List.drop_of_length_le (Nat.le_succ _)]

theorem exists_line (sep : β) (bs : List β) :
    sep ∉ bs ∨ ∃ l rest, IsLine sep l ∧ bs = l ++ rest := by
  induction bs with
  | nil => exact .inl List.not_mem_nil
  | cons b bs ih =>
    by_cases hb : b = sep
    · exact .inr ⟨[b], bs, ⟨[], List.not_mem_nil, by rw [hb]; rfl⟩, rfl⟩
    · rcases ih with hn | ⟨l, rest, ⟨w, hw, rfl⟩, rfl⟩
      · refine .inl fun hm => ?_
        rcases List.mem_cons.1 hm with he | hm
        · exact hb he.symm
        · exact hn hm
      · refine .inr ⟨b :: (w ++ [sep]), rest, ⟨b :: w, fun hm => ?_, rfl⟩, rfl⟩
        rcases List.mem_cons.1 hm with he | hm
        · exact hb he.symm
        · exact hw hm

theorem readLine_cases (sep : β) (bs : List β) :
    sep ∉ bs ∧ readLine sep bs = (bs, []) ∨
      ∃ l rest, IsLine sep l ∧ bs = l ++ rest ∧ readLine sep bs = (l, rest) := by
  rcases exists_line sep bs with hn | ⟨l, rest, hl, rfl⟩
  · exact .inl ⟨hn, readLine_partial hn⟩
  · exact .inr ⟨l, rest, hl, rfl, readLine_line hl rest⟩

theorem IsLine.count (h : IsLine sep l) : l.count sep = 1 := by
  obtain ⟨w, hw, rfl⟩ := h
  rw [List.count_append, List.count_eq_zero_of_not_mem hw, List.count_singleton_self]

theorem linesFrom_partial (h : sep ∉ w) (cur bs : List β) :
    linesFrom sep cur (w ++ bs) = linesFrom sep (cur ++ w) bs := by
  induction w generalizing cur with
  | nil => rw [List.nil_append, List.append_nil]
  | cons b w ih =>
    have hb : b ≠ sep := fun he => h (he ▸ List.mem_cons_self ..)
    have hw : sep ∉ w := fun hm => h (List.mem_cons_of_mem _ hm)
    rw [List.cons_append, linesFrom, if_neg hb, ih hw, List.append_assoc, List.singleton_append]

theorem linesOf_partial (h : sep ∉ w) : linesOf sep w = [] := by
  have hl := linesFrom_partial h [] []
  rwa [List.append_nil] at hl

theorem linesOf_line (h : IsLine sep l) (bs : List β) :
    linesOf sep (l ++ bs) = l :: linesOf sep bs := by
  obtain ⟨w, hw, rfl⟩ := h
  rw [linesOf, List.append_assoc, linesFrom_partial hw, List.nil_append, List.singleton_append,
    linesFrom, if_pos rfl, linesOf]

theorem linesOf_lines (h : ∀ l ∈ ls, IsLine sep l) (bs : List β) :
    linesOf sep (ls.flatten ++ bs) = ls ++ linesOf sep bs := by
  induction ls with
  | nil => rfl
  | cons l ls ih =>
    have hls : ∀ l ∈ ls, IsLine sep l := fun l hl => h l (List.mem_cons_of_mem _ hl)
    rw [List.flatten_cons, List.append_assoc, linesOf_line (h l (List.mem_cons_self ..)), ih hls,
      List.cons_append]

theorem lines_append_eq_nil {ls ks : List (List β)} (hk : ∀ l ∈ ks, IsLine sep l)
    (h : ∀ l ∈ ls, IsLine sep l) (hu : sep ∉ u) (he : ks.flatten = ls.flatten ++ u) : u = [] := by
  have hks := linesOf_lines hk []
  rw [List.append_nil, he, linesOf_lines h, linesOf_partial hu, linesOf_partial List.not_mem_nil,
    List.append_nil, List.append_nil] at hks
  rw [← hks] at he
  exact List.self_eq_append_right.1 he

theorem linesOf_eq_nil : linesOf sep bs = [] ↔ sep ∉ bs := by
  refine ⟨fun h => ?_, linesOf_partial⟩
  rcases exists_line sep bs with hn | ⟨l, rest, hl, rfl⟩
  · exact hn
  · rw [linesOf_line hl] at h
    cases h

/-- What is taken from the front of some lines is whole lines and a part of the next one. -/
theorem prefix_lines {ls : List (List β)} (h : ∀ l ∈ ls, IsLine sep l) (hp : p <+: ls.flatten) :
    ∃ u, sep ∉ u ∧ p = (ls.take (p.count sep)).flatten ++ u := by
  induction ls generalizing p with
  | nil =>
    obtain rfl := List.prefix_nil.1 hp
    exact ⟨[], List.not_mem_nil, rfl⟩
  | cons l ls ih =>
    have hl := h l (List.mem_cons_self ..)
    rw [List.flatten_cons] at hp
    rcases List.prefix_or_prefix_of_prefix hp (List.prefix_append l _) with hpl | ⟨p, rfl⟩
    · by_cases hs : sep ∈ p
      · obtain ⟨w, hw, rfl⟩ := hl
        rcases List.prefix_concat_iff.1 hpl with rfl | hpw
        · rw [IsLine.count ⟨w, hw, rfl⟩]
          exact ⟨[], List.not_mem_nil, by simp⟩
        · exact absurd (hpw.subset hs) hw
      · rw [List.count_eq_zero_of_not_mem hs]
        exact ⟨p, hs, rfl⟩
    · have hp := (List.prefix_append_right_inj l).1 hp
      obtain ⟨u, hu, hpu⟩ := ih (fun l hl => h l (List.mem_cons_of_mem _ hl)) hp
      refine ⟨u, hu, ?_⟩
      rw [List.count_append, hl.count, Nat.add_comm, List.take_succ_cons, List.flatten_cons,
        List.append_assoc, ← hpu]

theorem linesOf_prefix (bs cs : List β) : linesOf sep bs <+: linesOf sep (bs ++ cs) := by
  have hfrom (cur : List β) : linesFrom sep cur bs <+: linesFrom sep cur (bs ++ cs) := by
    induction bs generalizing cur with
    | nil => exact List.nil_prefix
    | cons b bs ih =>
      rw [List.cons_append, linesFrom, linesFrom]
      split
      · exact (List.prefix_cons_inj _).2 (ih [])
      · exact ih _
  exact hfrom []

end
end Lines
