import Avs4000.BlockFifoProducer
import Mathlib.Algebra.Order.BigOperators.Group.List

namespace Avs4000
namespace BlockFifo
open Memory Ring
set_option autoImplicit true

theorem readStart_none {f f' : BlockFifo} (h : f.readStart = (f', none)) :
    f' = f ∧ f.inBlk = none ∧ f.empty := by
  rw [readStart] at h
  split at h
  · cases h
  · next hi =>
    split at h
    · next he =>
      cases h
      exact ⟨rfl, hi, he⟩
    · cases h

theorem readStart_cases (h : Inv f) (hs : f.readStart = (f', some r)) :
    0 < f.count ∧ f' = { f with inBlk := some f.tail } ∧ f'.Reading r := by
  rw [readStart] at hs
  split at hs
  · next i hi =>
    obtain ⟨rfl, hc⟩ := h.inn i hi
    cases hs
    refine ⟨hc, ?_, hi, ?_⟩
    · rw [← hi]
    · rw [h.buf]
      congr 1
      exact Addr.ext rfl (Nat.zero_add _)
  · next hi =>
    split at hs
    · cases hs
    · next he =>
      cases hs
      rw [h.empty_iff] at he
      have hc : 0 < f.count := Nat.pos_of_ne_zero he
      have hz := h.read_zero f.tail (h.tail_mem hc) (by rw [hi]; exact nofun)
      refine ⟨hc, rfl, rfl, ?_⟩
      simp only [h.buf, hz, Nat.sub_zero]

theorem readStart_inv (h : Inv f) (hs : f.readStart = (f', some r)) : Inv f' := by
  obtain ⟨hc, rfl, hr⟩ := readStart_cases h hs
  exact
    { size_pos := h.size_pos
      tail_lt := h.tail_lt
      count_lt := h.count_lt
      head_eq := h.head_eq
      size := h.size
      buf := h.buf
      len_le := h.len_le
      read_le := h.read_le
      read_zero := fun i hi hne => h.read_zero i hi fun he => by
        obtain ⟨rfl, _⟩ := h.inn i he
        exact hne rfl
      out := h.out
      inn := fun i hi => by
        cases hi
        exact ⟨rfl, hc⟩ }

theorem readStart_same (h : Inv f) (hs : f.readStart = (f', some r)) : SameFill f f' := by
  obtain ⟨hc, rfl, hr⟩ := readStart_cases h hs
  exact ⟨rfl, rfl, rfl, rfl, fun _ => rfl⟩

theorem readStart_unread (h : Inv f) (hs : f.readStart = (f', some r)) (m : Mem UInt8) :
    f'.unread m = f.unread m := by
  obtain ⟨hc, rfl, hr⟩ := readStart_cases h hs
  rfl

theorem Reading.prefix_unread (h : Inv f) (hr : f.Reading r) (m : Mem UInt8) :
    m.load r.ptr r.maxAmt <+: f.unread m := by
  obtain ⟨hb, rfl⟩ := hr
  obtain ⟨c, hc⟩ := Nat.exists_eq_succ_of_ne_zero (Nat.pos_iff_ne_zero.1 (h.inn _ hb).2)
  rw [unread, ring, hc, slots_cons h.tail_lt, List.flatMap_cons, blockBytes, h.buf]
  rw [show (⟨f.tail, 0⟩ : Addr) + (f.blk f.tail).read = ⟨f.tail, (f.blk f.tail).read⟩ from
    Addr.ext rfl (Nat.zero_add _)]
  exact List.prefix_append ..

theorem readComplete_open {f : BlockFifo} (hr : f.Reading r) (ha : amt < r.maxAmt) :
    f.readComplete amt =
      f.setBlk f.tail { f.blk f.tail with read := (f.blk f.tail).read + amt } := by
  obtain ⟨hb, rfl⟩ := hr
  simp only at ha
  rw [readComplete, hb]
  simp only
  rw [if_neg (by omega)]

theorem readComplete_close (hr : f.Reading r) (h : Inv f) (ha : amt = r.maxAmt) :
    f.readComplete amt =
      { f.setBlk f.tail { f.blk f.tail with read := (f.blk f.tail).read + amt } with
        count := f.count - 1, tail := f.pinc f.tail, inBlk := none } := by
  obtain ⟨hb, rfl⟩ := hr
  have hl := h.read_le f.tail
  simp only at ha
  rw [readComplete, hb]
  simp only
  rw [if_pos (by omega)]
  rfl

theorem Inv.set_tail (h : Inv f) (hr : f.Reading r) (ha : amt ≤ r.maxAmt) (i : Nat) :
    let b := { f.blk f.tail with read := (f.blk f.tail).read + amt }
    ((f.setBlk f.tail b).blk i).size = f.blkSize ∧ ((f.setBlk f.tail b).blk i).buf = ⟨i, 0⟩ ∧
      ((f.setBlk f.tail b).blk i).len = (f.blk i).len ∧
      ((f.setBlk f.tail b).blk i).read ≤ ((f.setBlk f.tail b).blk i).len := by
  obtain ⟨hb, rfl⟩ := hr
  have hl := h.read_le f.tail
  simp only at ha
  by_cases hi : i = f.tail
  · subst hi
    simp only [setBlk_self]
    exact ⟨h.size _, h.buf _, trivial, by omega⟩
  · simp only [setBlk_ne _ _ hi]
    exact ⟨h.size _, h.buf _, trivial, h.read_le _⟩

theorem Inv.tail_ne_out (h : Inv f) (hc : 0 < f.count) (ho : f.outBlk = some o) : o ≠ f.tail := by
  intro he
  have hm := h.tail_mem hc
  rw [← he, (h.out o ho).1] at hm
  exact h.head_not_mem hm

theorem ring_eq_cons (h : Inv f) (hc : 0 < f.count) :
    f.ring = f.tail :: slots f.blkCount (f.pinc f.tail) (f.count - 1) := by
  obtain ⟨c, hc⟩ := Nat.exists_eq_succ_of_ne_zero (Nat.pos_iff_ne_zero.1 hc)
  rw [ring, hc, slots_cons h.tail_lt]
  rfl

theorem readComplete_inv (h : Inv f) (hr : f.Reading r) (ha : amt ≤ r.maxAmt) :
    Inv (f.readComplete amt) := by
  have hs := h.set_tail hr ha
  have hc := (h.inn _ hr.1).2
  have hcl := h.count_lt
  have hout (o : Nat) (ho : f.outBlk = some o) :
      (f.setBlk f.tail { f.blk f.tail with read := (f.blk f.tail).read + amt }).blk o = f.blk o :=
    setBlk_ne _ _ (h.tail_ne_out hc ho)
  by_cases he : amt = r.maxAmt
  · rw [readComplete_close hr h he]
    have hcons := ring_eq_cons h hc
    have hnot := tail_not_mem_rest h.tail_lt hcl
    exact
      { size_pos := h.size_pos
        tail_lt := Nat.mod_lt _ (Nat.zero_lt_of_lt h.tail_lt)
        count_lt := Nat.lt_of_le_of_lt (Nat.sub_le ..) hcl
        head_eq := by
          change f.head = (f.pinc f.tail + (f.count - 1)) % f.blkCount
          rw [pinc, h.head_eq, Nat.mod_add_mod]
          congr 1
          omega
        size := fun i => (hs i).1
        buf := fun i => (hs i).2.1
        len_le := fun i => (hs i).2.2.1 ▸ h.len_le i
        read_le := fun i => (hs i).2.2.2
        read_zero := fun i hi _ => by
          change i ∈ slots f.blkCount (f.pinc f.tail) (f.count - 1) at hi
          have hne : i ≠ f.tail := fun hit => hnot (hit ▸ hi)
          refine (congrArg Block.read (setBlk_ne _ _ hne)).trans (h.read_zero i ?_ ?_)
          · rw [hcons]
            exact List.mem_cons_of_mem _ hi
          · rw [hr.1]
            exact fun hit => hne (Option.some.inj hit).symm
        out := fun o ho => by
          obtain ⟨ho₁, ho₂, ho₃, ho₄⟩ := h.out o ho
          refine ⟨ho₁, ?_, ?_, ?_⟩
          · change f.count - 1 + 1 < f.blkCount
            omega
          · exact (congrArg Block.len (hout o ho)).trans_lt ho₃
          · exact (congrArg Block.read (hout o ho)).trans ho₄
        inn := fun i hi => nomatch hi }
  · rw [readComplete_open hr (Nat.lt_of_le_of_ne ha he)]
    exact
      { size_pos := h.size_pos
        tail_lt := h.tail_lt
        count_lt := h.count_lt
        head_eq := h.head_eq
        size := fun i => (hs i).1
        buf := fun i => (hs i).2.1
        len_le := fun i => (hs i).2.2.1 ▸ h.len_le i
        read_le := fun i => (hs i).2.2.2
        read_zero := fun i hi hne => by
          have hit : i ≠ f.tail := fun hit => hne (by rw [hit]; exact hr.1)
          exact (congrArg Block.read (setBlk_ne _ _ hit)).trans (h.read_zero i hi hne)
        out := fun o ho => by
          obtain ⟨ho₁, ho₂, ho₃, ho₄⟩ := h.out o ho
          exact ⟨ho₁, ho₂, (congrArg Block.len (hout o ho)).trans_lt ho₃,
            (congrArg Block.read (hout o ho)).trans ho₄⟩
        inn := h.inn }

theorem readComplete_same (h : Inv f) (hr : f.Reading r) : SameFill f (f.readComplete amt) := by
  have hc := (h.inn _ hr.1).2
  have hblk (ho : f.outBlk = some f.head) :
      (f.setBlk f.tail { f.blk f.tail with read := (f.blk f.tail).read + amt }).blk f.head =
        f.blk f.head := setBlk_ne _ _ (h.tail_ne_out hc ho)
  rw [readComplete, hr.1]
  dsimp only
  split <;> exact ⟨rfl, rfl, rfl, rfl, hblk⟩

/-- Completing a read takes the completed part of the region off the unread bytes. -/
theorem readComplete_content (h : Inv f) (hr : f.Reading r) (ha : amt ≤ r.maxAmt)
    (m : Mem UInt8) :
    f.unread m = m.load r.ptr amt ++ (f.readComplete amt).unread m := by
  have hc := (h.inn _ hr.1).2
  have hcons := ring_eq_cons h hc
  have hnot := tail_not_mem_rest h.tail_lt h.count_lt
  have hbuf := h.buf f.tail
  have hptr : r.ptr = (⟨f.tail, 0⟩ : Addr) + (f.blk f.tail).read := by
    rw [hr.2]
    exact Addr.ext rfl (Nat.zero_add _).symm
  have hmax : (f.blk f.tail).len - (f.blk f.tail).read = r.maxAmt := by rw [hr.2]
  have hrest (b : Block) : ∀ i ∈ slots f.blkCount (f.pinc f.tail) (f.count - 1),
      (f.setBlk f.tail b).blockBytes m i = f.blockBytes m i := by
    intro i hi
    simp only [blockBytes, setBlk_ne _ _ fun he : i = f.tail => hnot (he ▸ hi)]
  rw [unread, hcons, List.flatMap_cons]
  have htail : f.blockBytes m f.tail = m.load r.ptr r.maxAmt := by
    rw [blockBytes, hbuf, hmax, hptr]
  by_cases he : amt = r.maxAmt
  · rw [readComplete_close hr h he, htail, he]
    congr 1
    exact (List.flatMap_congr (hrest _)).symm
  · have hlt := Nat.lt_of_le_of_ne ha he
    rw [readComplete_open hr hlt, unread]
    change _ = _ ++ f.ring.flatMap _
    rw [hcons, List.flatMap_cons, List.flatMap_congr (hrest _), ← List.append_assoc, htail]
    congr 1
    obtain ⟨d, hd⟩ := Nat.exists_eq_add_of_le ha
    rw [hd, Mem.load_add]
    congr 1
    simp only [blockBytes, setBlk_self, hbuf, hptr, Addr.add_add]
    congr 1
    omega

theorem Inv.unread_length_le (h : Inv f) (m : Mem UInt8) :
    (f.unread m).length ≤ (f.blkCount - 1) * f.blkSize := by
  have hcl := h.count_lt
  have hb : ∀ n ∈ f.ring.map fun i => (f.blockBytes m i).length, n ≤ f.blkSize := by
    intro n hn
    obtain ⟨i, _, rfl⟩ := List.mem_map.1 hn
    rw [blockBytes, Mem.length_load]
    exact Nat.le_trans (Nat.sub_le ..) (h.len_le i)
  have hs := List.sum_le_card_nsmul _ _ hb
  rw [List.length_map, ring, slots, List.length_map, List.length_range, nsmul_eq_mul,
    Nat.cast_id] at hs
  rw [unread, List.length_flatMap]
  exact Nat.le_trans hs (Nat.mul_le_mul_right _ (by omega))

/-- Two blocks of which the first has been filled. -/
def oneBlock (b : Nat) : BlockFifo := (new b 2).writeStart.1.writeComplete b

theorem oneBlock_not_empty (b : Nat) : ¬(oneBlock b).empty := by
  simp [oneBlock, writeComplete, writeStart, new, setBlk, full, empty, pinc, Block.reset]

theorem oneBlock_readStart (b : Nat) :
    (oneBlock b).readStart = ((oneBlock b).readStart.1, some ⟨⟨0, 0⟩, b⟩) := by
  simp [oneBlock, readStart, writeComplete, writeStart, new, setBlk, full, empty, pinc,
    Block.reset]

theorem oneBlock_readComplete (b : Nat) :
    let f := (oneBlock b).readStart.1.readComplete b
    f.empty ∧ f.outBlk = none ∧ f.count = 0 := by
  simp [oneBlock, readStart, readComplete, writeComplete, writeStart, new, setBlk, full, empty,
    pinc, Block.reset]

end BlockFifo
end Avs4000
