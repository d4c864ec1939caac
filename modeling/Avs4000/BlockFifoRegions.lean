import Avs4000.BlockFifoConsumer

namespace Avs4000
namespace BlockFifo
open Memory Ring
set_option autoImplicit true

/-- What a producer's operation leaves to the consumer. -/
structure KeepsReading (f f' : BlockFifo) : Prop where
  inv : Inv f'
  blkSize : f'.blkSize = f.blkSize
  inBlk : f'.inBlk = f.inBlk
  count : f.count ≤ f'.count
  reading : ∀ r, f.Reading r → f'.Reading r

theorem KeepsReading.refl (h : Inv f) : KeepsReading f f :=
  ⟨h, rfl, rfl, Nat.le_refl _, fun _ hr => hr⟩

theorem keepsReading_writeStart (h : Inv f) (hs : f.writeStart = (f', buf)) :
    KeepsReading f f' := by
  cases buf with
  | none =>
    obtain ⟨rfl, _⟩ := writeStart_none hs
    exact .refl h
  | some r =>
    have hsame := writeStart_same h hs
    exact ⟨writeStart_inv h hs, hsame.blkSize, hsame.inBlk, Nat.le_of_eq hsame.count.symm,
      fun _ hr => hsame.reading h hr⟩

theorem writeComplete_count (h : Inv f) (hw : f.Writing r) (ha : amt ≤ r.maxAmt) :
    f.count ≤ (f.writeComplete amt).count := by
  by_cases hc : amt = 0 ∨ amt = r.maxAmt
  · rw [writeComplete_close hw h hc]
    exact Nat.le_succ _
  · rw [not_or] at hc
    have hsame := writeComplete_sameRing h hw hc.1 (Nat.lt_of_le_of_ne ha hc.2)
    exact Nat.le_of_eq hsame.count.symm

theorem keepsReading_writeComplete (h : Inv f) (hw : f.Writing r) (ha : amt ≤ r.maxAmt) :
    KeepsReading f (f.writeComplete amt) :=
  ⟨writeComplete_inv h hw ha, (writeComplete_tail f amt).2.2.1, (writeComplete_tail f amt).2.1,
    writeComplete_count h hw ha, fun _ hr => writeComplete_reading h hw hr⟩

theorem writeComplete_outBlk_none {f : BlockFifo} (h : f.outBlk = none) (amt : Nat) :
    f.writeComplete amt = f := by
  rw [writeComplete, h]

theorem Inv.writing_of_outBlk (h : Inv f) (ho : f.outBlk = some o) :
    ∃ r, f.Writing r := by
  obtain ⟨rfl, _⟩ := h.out o ho
  exact ⟨_, ho, rfl⟩

theorem keepsReading_force (h : Inv f) : KeepsReading f (f.writeComplete 0) := by
  cases ho : f.outBlk with
  | none =>
    rw [writeComplete_outBlk_none ho]
    exact .refl h
  | some o =>
    obtain ⟨r, hw⟩ := h.writing_of_outBlk ho
    exact keepsReading_writeComplete h hw (Nat.zero_le _)

theorem setBlk_blk (f : BlockFifo) (j : Nat) (b : Block) (i : Nat) :
    (f.setBlk j b).blk i = if i = j then b else f.blk i := by
  split
  · next h => rw [h, setBlk_self]
  · next h => exact setBlk_ne f b h

theorem writeComplete_blk_eq {f : BlockFifo} (hw : f.Writing r) (amt i : Nat) :
    (f.writeComplete amt).blk i =
      if i = f.head then { f.blk f.head with len := (f.blk f.head).len + amt } else f.blk i := by
  have hset := setBlk_blk f f.head { f.blk f.head with len := (f.blk f.head).len + amt } i
  rw [writeComplete, hw.1]
  dsimp only
  split <;> exact hset

theorem readComplete_blk_eq {f : BlockFifo} (hr : f.Reading r) (amt i : Nat) :
    (f.readComplete amt).blk i =
      if i = f.tail then { f.blk f.tail with read := (f.blk f.tail).read + amt } else f.blk i := by
  have hset := setBlk_blk f f.tail { f.blk f.tail with read := (f.blk f.tail).read + amt } i
  rw [readComplete, hr.1]
  dsimp only
  split <;> exact hset

/-- What a consumer's operation leaves to the producer. -/
structure KeepsWriting (f f' : BlockFifo) : Prop where
  inv : Inv f'
  blkSize : f'.blkSize = f.blkSize
  outBlk : f'.outBlk = f.outBlk
  count : f'.count ≤ f.count
  writing : ∀ r, f.Writing r → f'.Writing r

theorem KeepsWriting.refl (h : Inv f) : KeepsWriting f f :=
  ⟨h, rfl, rfl, Nat.le_refl _, fun _ hw => hw⟩

theorem keepsWriting_readStart (h : Inv f) (hs : f.readStart = (f', r)) : KeepsWriting f f' := by
  cases r with
  | none =>
    obtain ⟨rfl, _⟩ := readStart_none hs
    exact .refl h
  | some r =>
    have hsame := readStart_same h hs
    obtain ⟨_, rfl, _⟩ := readStart_cases h hs
    exact ⟨readStart_inv h hs, rfl, rfl, Nat.le_refl _, fun _ hw => hsame.writing hw⟩

theorem keepsWriting_readComplete (h : Inv f) (hr : f.Reading r) (ha : amt ≤ r.maxAmt) :
    KeepsWriting f (f.readComplete amt) := by
  have hsame : SameFill f (f.readComplete amt) := readComplete_same h hr
  refine ⟨readComplete_inv h hr ha, hsame.blkSize, hsame.outBlk, ?_, fun _ hw => hsame.writing hw⟩
  by_cases he : amt = r.maxAmt
  · rw [readComplete_close hr h he]
    exact Nat.sub_le ..
  · rw [readComplete_open hr (Nat.lt_of_le_of_ne ha he)]
    exact Nat.le_refl _

/-- The two memories agree on everything in the ring and on what the consumer holds. -/
structure SameContent (f : BlockFifo) (m m' : Mem UInt8) : Prop where
  unread : f.unread m' = f.unread m
  filling : f.filling m' = f.filling m
  reading : ∀ r, f.Reading r → ∀ n, m'.load r.ptr n = m.load r.ptr n

theorem SameContent.trans (h : SameContent f m m') (h' : SameContent f m' m'') :
    SameContent f m m'' where
  unread := h'.unread.trans h.unread
  filling := h'.filling.trans h.filling
  reading r hr n := (h'.reading r hr n).trans (h.reading r hr n)

theorem sameContent_store (h : Inv f) (hw : f.Writing w) (hb : off + bs.length ≤ w.maxAmt)
    (m : Mem UInt8) : SameContent f m (m.store (w.ptr + off) bs) where
  unread := (store_same h hw hb m).1
  filling := (store_same h hw hb m).2
  reading r hr n := by
    obtain ⟨ho, rfl⟩ := hw
    obtain ⟨hi, rfl⟩ := hr
    exact Mem.load_store_apart (.inl (Ne.symm (h.tail_ne_out (h.inn _ hi).2 ho)))

theorem readComplete_inBlk_none {f : BlockFifo} (h : f.inBlk = none) (amt : Nat) :
    f.readComplete amt = f := by
  rw [readComplete, h]

theorem reset_blk (f : BlockFifo) (i : Nat) : f.reset.blk i = (f.blk i).reset ∨
    f.reset.blk i = f.blk i := by
  by_cases hi : i < f.blkCount
  · exact .inl (if_pos hi)
  · exact .inr (if_neg hi)

theorem reset_inv (h : Inv f) : Inv f.reset where
  size_pos := h.size_pos
  tail_lt := Nat.zero_lt_of_lt h.tail_lt
  count_lt := Nat.zero_lt_of_lt h.tail_lt
  head_eq := (Nat.zero_mod _).symm
  size i := by rcases reset_blk f i with hb | hb <;> rw [hb] <;> exact h.size i
  buf i := by rcases reset_blk f i with hb | hb <;> rw [hb] <;> exact h.buf i
  len_le i := by
    rcases reset_blk f i with hb | hb <;> rw [hb]
    · exact Nat.zero_le _
    · exact h.len_le i
  read_le i := by
    rcases reset_blk f i with hb | hb <;> rw [hb]
    · exact Nat.le_refl _
    · exact h.read_le i
  read_zero _ hi _ := nomatch hi
  out _ ho := nomatch ho
  inn _ hi := nomatch hi

end BlockFifo
end Avs4000
