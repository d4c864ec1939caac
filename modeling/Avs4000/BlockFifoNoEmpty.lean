import Avs4000.BlockFifoRegions

namespace Avs4000
set_option autoImplicit true

namespace BlockFifo

/-- Every committed block has bytes to read. -/
def NoEmpty (f : BlockFifo) : Prop := ∀ i ∈ f.ring, (f.blk i).read < (f.blk i).len

/-- The block being filled, if there is one, has bytes in it. -/
def Started (f : BlockFifo) : Prop := ∀ o, f.outBlk = some o → 0 < (f.blk o).len

theorem NoEmpty.reading (h : NoEmpty f) (hi : Inv f) (hr : f.Reading r) : 0 < r.maxAmt := by
  obtain ⟨hb, rfl⟩ := hr
  exact Nat.sub_pos_of_lt (h _ (hi.tail_mem (hi.inn _ hb).2))

theorem NoEmpty.writeStart (h : NoEmpty f) (hi : Inv f) (hs : f.writeStart = (f', buf)) :
    NoEmpty f' := by
  cases buf with
  | none =>
    obtain ⟨rfl, _⟩ := writeStart_none hs
    exact h
  | some r =>
    have hsame := writeStart_same hi hs
    intro i hm
    rw [hsame.ring] at hm
    rw [hsame.blk i hm]
    exact h i hm

theorem NoEmpty.writeComplete (h : NoEmpty f) (hi : Inv f) (hw : f.Writing r)
    (ha : amt ≤ r.maxAmt) (hp : 0 < (f.blk f.head).len + amt) : NoEmpty (f.writeComplete amt) := by
  intro i hm
  rcases writeComplete_ring hi hw ha hm with hm | ⟨rfl, _, hb⟩
  · rw [writeComplete_blk hi hw hm]
    exact h i hm
  · rw [hb, (hi.out _ hw.1).2.2.2]
    exact hp

theorem NoEmpty.force (h : NoEmpty f) (hi : Inv f) (hs : Started f) :
    NoEmpty (f.writeComplete 0) := by
  cases ho : f.outBlk with
  | none =>
    rw [writeComplete_outBlk_none ho]
    exact h
  | some o =>
    have hpos := hs o ho
    obtain ⟨rfl, _⟩ := hi.out o ho
    exact h.writeComplete hi ⟨ho, rfl⟩ (Nat.zero_le _) hpos

theorem writeStart_blkSize {f : BlockFifo} (h : Inv f) (hs : f.writeStart = (f', buf)) :
    f'.blkSize = f.blkSize := by
  cases buf with
  | none =>
    obtain ⟨rfl, _⟩ := writeStart_none hs
    rfl
  | some r => exact (writeStart_same h hs).blkSize

theorem started_of_short {f : BlockFifo} (h : Inv f) (hs : f.writeStart = (f', buf))
    (hb : ∀ r, buf = some r → r.maxAmt < f.blkSize) : Started f' := by
  intro o ho
  cases buf with
  | none =>
    obtain ⟨rfl, hn, _⟩ := writeStart_none hs
    cases hn.symm.trans ho
  | some r =>
    have hm := hb r rfl
    have hsize := writeStart_blkSize h hs
    obtain ⟨ho', rfl⟩ := writeStart_writing h hs
    cases ho.symm.trans ho'
    simp only at hm
    omega

theorem NoEmpty.readStart (h : NoEmpty f) (hi : Inv f) (hs : f.readStart = (f', buf)) :
    NoEmpty f' := by
  cases buf with
  | none =>
    obtain ⟨rfl, _⟩ := readStart_none hs
    exact h
  | some r =>
    obtain ⟨_, rfl, _⟩ := readStart_cases hi hs
    exact h

theorem NoEmpty.readComplete (h : NoEmpty f) (hi : Inv f) (hr : f.Reading r)
    (ha : amt ≤ r.maxAmt) : NoEmpty (f.readComplete amt) := by
  intro i hm
  have hcount := (hi.inn _ hr.1).2
  rw [readComplete_blk_eq hr]
  by_cases he : amt = r.maxAmt
  · rw [readComplete_close hr hi he] at hm
    have hne : i ≠ f.tail := by
      rintro rfl
      exact Ring.tail_not_mem_rest hi.tail_lt hi.count_lt hm
    rw [if_neg hne]
    exact h i (ring_eq_cons hi hcount ▸ List.mem_cons_of_mem _ hm)
  · have hlt := Nat.lt_of_le_of_ne ha he
    rw [readComplete_open hr hlt] at hm
    split
    · next hit =>
      obtain ⟨_, rfl⟩ := hr
      exact Nat.add_comm amt _ ▸ Nat.add_lt_of_lt_sub hlt
    · exact h i hm

theorem NoEmpty.reset (f : BlockFifo) : NoEmpty f.reset := by
  intro i hm
  cases hm

theorem NoEmpty.new (b c : Nat) : NoEmpty (new b c) := by
  intro i hm
  cases hm

theorem Started.consumer (h : Started f) (hi : Inv f) (hs : SameFill f f') : Started f' := by
  intro o ho
  rw [hs.outBlk] at ho
  have hpos := h o ho
  obtain ⟨rfl, _⟩ := hi.out o ho
  rwa [hs.blk ho]

end BlockFifo
end Avs4000
