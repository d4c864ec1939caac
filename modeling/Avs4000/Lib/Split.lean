import Mathlib.Data.String.Basic

namespace Split
open String
set_option autoImplicit true

/-- `splitOnAux` with a separator of one character, once `l` is dealt with and `m` is read. -/
theorem splitOnAux_eq (c : Char) (l m r : List Char) (acc : List String) :
    splitOnAux (ofList (l ++ m ++ r)) (ofList [c]) ⟨utf8Len l⟩ ⟨utf8Len (l ++ m)⟩ 0 acc =
      acc.reverse ++ (List.splitOnPPrepend (· == c) r m.reverse).map ofList := by
  induction r generalizing l m acc with
  | nil =>
    have hend := (atEnd_of_valid (l ++ m) []).2 rfl
    rw [splitOnAux, if_pos hend, utf8Len_append, extract_of_valid, List.splitOnPPrepend_nil,
      List.reverse_cons, List.reverse_reverse, List.map_singleton]
  | cons d r ih =>
    have hend : ¬Pos.Raw.atEnd (ofList (l ++ m ++ d :: r)) ⟨utf8Len (l ++ m)⟩ := by
      intro h
      cases (atEnd_of_valid (l ++ m) (d :: r)).1 h
    have hget : Pos.Raw.get (ofList (l ++ m ++ d :: r)) ⟨utf8Len (l ++ m)⟩ = d :=
      get_of_valid (l ++ m) (d :: r)
    have hsep : Pos.Raw.get (ofList [c]) 0 = c := get_of_valid [] [c]
    have hnext : Pos.Raw.next (ofList (l ++ m ++ d :: r)) ⟨utf8Len (l ++ m)⟩ =
        ⟨utf8Len (l ++ (m ++ [d]))⟩ := by
      rw [next_of_valid, ← List.append_assoc, utf8Len_append _ [d], utf8Len_cons, utf8Len_nil,
        Nat.zero_add]
    have hsplit : l ++ m ++ d :: r = l ++ (m ++ [d]) ++ r := by
      simp only [List.append_assoc, List.singleton_append]
    rw [splitOnAux, if_neg hend, hget, hsep]
    by_cases hd : d = c
    · subst hd
      have hsepNext : Pos.Raw.next (ofList [d]) 0 = ⟨utf8Len [d]⟩ := by
        have h := next_of_valid [] d []
        rwa [utf8Len_nil, Nat.zero_add, ← Nat.zero_add d.utf8Size] at h
      have hsepEnd := (atEnd_of_valid [d] []).2 rfl
      have hextract : Pos.Raw.extract (ofList (l ++ m ++ d :: r)) ⟨utf8Len l⟩
          (Pos.Raw.unoffsetBy ⟨utf8Len (l ++ (m ++ [d]))⟩ ⟨utf8Len [d]⟩) = ofList m := by
        rw [Pos.Raw.unoffsetBy, ← List.append_assoc, utf8Len_append _ [d], Nat.add_sub_cancel,
          utf8Len_append]
        exact extract_of_valid l m (d :: r)
      have hrest := ih (l ++ (m ++ [d])) [] (ofList m :: acc)
      have hcons : List.splitOnPPrepend (· == d) (d :: r) m.reverse =
          m.reverse.reverse :: List.splitOnP (· == d) r :=
        List.splitOnPPrepend_cons_pos (beq_self_eq_true d)
      rw [List.append_nil] at hsepEnd hrest
      rw [if_pos (beq_self_eq_true d), hcons]
      simp only [hnext, hsepNext, hextract]
      rw [if_pos hsepEnd, hsplit, hrest, List.reverse_cons, List.reverse_reverse,
        List.append_assoc]
      rfl
    · have hbeq : (d == c) = false := beq_false_of_ne hd
      have hoff : Pos.Raw.unoffsetBy ⟨utf8Len (l ++ m)⟩ 0 = ⟨utf8Len (l ++ m)⟩ := rfl
      have hcons : List.splitOnPPrepend (· == c) (d :: r) m.reverse =
          List.splitOnPPrepend (· == c) r (d :: m.reverse) :=
        List.splitOnPPrepend_cons_neg hbeq
      rw [hbeq, if_neg Bool.false_ne_true, hcons, hoff, hnext, hsplit, ih l (m ++ [d]) acc,
        List.reverse_append, List.reverse_singleton, List.singleton_append]

theorem splitOn_eq (s : String) (c : Char) :
    s.splitOn (ofList [c]) = (s.toList.splitOn c).map ofList := by
  have hne : (ofList [c] == "") = false := by
    apply beq_false_of_ne
    intro h
    have hl := congrArg String.toList h
    rw [toList_ofList] at hl
    cases hl
  have h := splitOnAux_eq c [] [] s.toList []
  rw [List.nil_append, List.nil_append, ofList_toList, List.reverse_nil, List.reverse_nil,
    List.nil_append, List.splitOnPPrepend_nil_right] at h
  rw [splitOn, hne, if_neg Bool.false_ne_true]
  exact h

/-- The character is in the string once, between the two parts. -/
structure Pair (c : Char) (s g p : String) : Prop where
  left : c ∉ g.toList
  right : c ∉ p.toList
  eq : s.toList = g.toList ++ c :: p.toList

theorem splitOn_single {s : String} (h : c ∉ s.toList) : s.splitOn (ofList [c]) = [s] := by
  rw [splitOn_eq, List.splitOn_eq_singleton h, List.map_singleton, ofList_toList]

theorem Pair.splitOn (h : Pair c s g p) : s.splitOn (ofList [c]) = [g, p] := by
  rw [splitOn_eq, h.eq, List.splitOn_append_cons_self_of_not_mem h.left,
    List.splitOn_eq_singleton h.right, List.map_cons, List.map_singleton, ofList_toList,
    ofList_toList]

theorem splitOn_cases (s : String) (c : Char) :
    c ∉ s.toList ∨ (∃ g p, Pair c s g p) ∨
      c ∈ s.toList ∧ ∃ g p q rest, s.splitOn (ofList [c]) = g :: p :: q :: rest := by
  by_cases hs : c ∈ s.toList
  · right
    obtain ⟨g, r, hr, hg⟩ := List.eq_append_cons_of_mem hs
    by_cases hp : c ∈ r
    · right
      obtain ⟨p, q, hq, hp⟩ := List.eq_append_cons_of_mem hp
      obtain ⟨t, ts, ht⟩ := List.exists_cons_of_ne_nil (List.splitOn_ne_nil c q)
      refine ⟨hs, ofList g, ofList p, ofList t, ts.map ofList, ?_⟩
      rw [splitOn_eq, hr, hq, List.splitOn_append_cons_self_of_not_mem hg,
        List.splitOn_append_cons_self_of_not_mem hp, ht]
      rfl
    · left
      refine ⟨ofList g, ofList r, ?_, ?_, ?_⟩
      · rwa [toList_ofList]
      · rwa [toList_ofList]
      · rw [toList_ofList, toList_ofList, hr]
  · exact .inl hs

end Split
