import Avs4000.BlockFifo

namespace Avs4000
namespace BlockFifo
open Memory Ring
set_option autoImplicit true

@[simp] theorem setBlk_self (f : BlockFifo) (i : Nat) (b : Block) : (f.setBlk i b).blk i = b :=
  Function.update_self ..

theorem setBlk_ne (f : BlockFifo) (b : Block) (h : j ≠ i) : (f.setBlk i b).blk j = f.blk j :=
  Function.update_of_ne h ..

theorem filling_some {f : BlockFifo} (h : f.outBlk = some o) (m : Mem UInt8) :
    f.filling m = m.load (f.blk o).buf (f.blk o).len := by
  rw [filling, h]

theorem filling_none {f : BlockFifo} (h : f.outBlk = none) (m : Mem UInt8) :
    f.filling m = [] := by
  rw [filling, h]

theorem new_inv {s c : Nat} (hs : 0 < s) (hc : 0 < c) : Inv (new s c) where
  size_pos := hs
  tail_lt := hc
  count_lt := hc
  head_eq := (Nat.zero_mod _).symm
  size _ := rfl
  buf _ := rfl
  len_le _ := Nat.zero_le _
  read_le _ := Nat.le_refl _
  read_zero _ _ _ := rfl
  out _ h := nomatch h
  inn _ h := nomatch h

theorem Inv.head_not_mem (h : Inv f) : f.head ∉ f.ring := by
  rw [h.head_eq]
  exact head_not_mem_slots h.count_lt

theorem Inv.tail_mem (h : Inv f) (hc : 0 < f.count) : f.tail ∈ f.ring := tail_mem_slots h.tail_lt hc

theorem Inv.full_iff (h : Inv f) : f.full ↔ f.count + 1 = f.blkCount := by
  have hc := h.count_lt
  have ht := Nat.mod_eq_of_lt h.tail_lt
  rw [full, pinc, h.head_eq, Nat.mod_add_mod, Nat.add_assoc]
  constructor
  · intro he
    by_contra hn
    have he' : (f.tail + (f.count + 1)) % f.blkCount = (f.tail + 0) % f.blkCount := by
      rw [he, Nat.add_zero, ht]
    exact absurd (offset_inj he' (by omega) (by omega)) (Nat.succ_ne_zero _)
  · intro he
    rw [he, Nat.add_mod_right, ht]

theorem Inv.empty_iff (h : Inv f) : f.empty ↔ f.count = 0 := by
  have hc := h.count_lt
  have ht := Nat.mod_eq_of_lt h.tail_lt
  rw [empty, h.head_eq]
  constructor
  · intro he
    have he' : (f.tail + f.count) % f.blkCount = (f.tail + 0) % f.blkCount := by
      rw [he, Nat.add_zero, ht]
    exact offset_inj he' hc (by omega)
  · intro he
    rw [he, Nat.add_zero, ht]

/-- The producer touched no committed block. -/
structure SameRing (f f' : BlockFifo) : Prop where
  blkSize : f'.blkSize = f.blkSize
  blkCount : f'.blkCount = f.blkCount
  tail : f'.tail = f.tail
  count : f'.count = f.count
  inBlk : f'.inBlk = f.inBlk
  blk : ∀ i ∈ f.ring, f'.blk i = f.blk i

/-- The consumer touched nothing of the block being filled. -/
structure SameFill (f f' : BlockFifo) : Prop where
  blkSize : f'.blkSize = f.blkSize
  blkCount : f'.blkCount = f.blkCount
  head : f'.head = f.head
  outBlk : f'.outBlk = f.outBlk
  blk : f.outBlk = some f.head → f'.blk f.head = f.blk f.head

theorem SameRing.refl (f : BlockFifo) : SameRing f f := ⟨rfl, rfl, rfl, rfl, rfl, fun _ _ => rfl⟩

theorem SameFill.refl (f : BlockFifo) : SameFill f f := ⟨rfl, rfl, rfl, rfl, fun _ => rfl⟩

theorem SameFill.symm (h : SameFill f f') : SameFill f' f where
  blkSize := h.blkSize.symm
  blkCount := h.blkCount.symm
  head := h.head.symm
  outBlk := h.outBlk.symm
  blk ho := by
    rw [h.outBlk, h.head] at ho
    rw [h.head, h.blk ho]

theorem SameRing.ring (h : SameRing f f') : f'.ring = f.ring := by
  rw [BlockFifo.ring, h.blkCount, h.tail, h.count, BlockFifo.ring]

theorem SameRing.unread (h : SameRing f f') (m : Mem UInt8) : f'.unread m = f.unread m := by
  rw [BlockFifo.unread, h.ring, BlockFifo.unread]
  apply List.flatMap_congr
  intro i hi
  rw [blockBytes, h.blk i hi, blockBytes]

theorem SameFill.filling (h : SameFill f f') (hi : Inv f) (m : Mem UInt8) :
    f'.filling m = f.filling m := by
  rw [BlockFifo.filling, h.outBlk, BlockFifo.filling]
  cases ho : f.outBlk with
  | none => rfl
  | some o =>
    have he := (hi.out o ho).1
    subst he
    simp only [h.blk ho]

theorem SameFill.writing (h : SameFill f f') (hw : f.Writing r) : f'.Writing r := by
  obtain ⟨ho, rfl⟩ := hw
  exact ⟨by rw [h.outBlk, h.head, ho], by rw [h.head, h.blk ho, h.blkSize]⟩

theorem SameRing.reading (h : SameRing f f') (hi : Inv f) (hr : f.Reading r) : f'.Reading r := by
  obtain ⟨hb, rfl⟩ := hr
  have ht := hi.tail_mem (hi.inn _ hb).2
  exact ⟨by rw [h.inBlk, h.tail, hb], by rw [h.tail, h.blk _ ht]⟩

theorem writeStart_none {f f' : BlockFifo} (h : f.writeStart = (f', none)) :
    f' = f ∧ f.outBlk = none ∧ f.full := by
  rw [writeStart] at h
  split at h
  · cases h
  · next ho =>
    split at h
    · next hf =>
      cases h
      exact ⟨rfl, ho, hf⟩
    · cases h

theorem writeStart_cases (h : Inv f) (hs : f.writeStart = (f', some r)) :
    (f' = f ∧ f.outBlk = some f.head) ∨
      f.outBlk = none ∧ f.count + 1 < f.blkCount ∧
        f' = { f.setBlk f.head (f.blk f.head).reset with outBlk := some f.head } := by
  rw [writeStart] at hs
  split at hs
  · next o ho =>
    cases hs
    have he := (h.out o ho).1
    subst he
    exact .inl ⟨rfl, ho⟩
  · next ho =>
    split at hs
    · cases hs
    · next hf =>
      cases hs
      rw [h.full_iff] at hf
      have hc := h.count_lt
      exact .inr ⟨ho, by omega, rfl⟩

theorem writeStart_region (h : Inv f) (hs : f.writeStart = (f', some r)) :
    r = ⟨⟨f'.head, (f'.blk f'.head).len⟩, f'.blkSize - (f'.blk f'.head).len⟩ := by
  have hb := h.buf
  have hz := h.size
  rw [writeStart] at hs
  split at hs
  · next o ho =>
    have he := (h.out o ho).1
    subst he
    cases hs
    rw [hb, hz]
    congr 1
    exact Addr.ext rfl (Nat.zero_add _)
  · split at hs
    · cases hs
    · cases hs
      simp only [setBlk, Function.update_self, Block.reset, hb, hz, Nat.sub_zero]

theorem writeStart_inv (h : Inv f) (hs : f.writeStart = (f', some r)) : Inv f' := by
  obtain ⟨rfl, _⟩ | ⟨ho, hc, rfl⟩ := writeStart_cases h hs
  · exact h
  · have hn := h.head_not_mem
    have hblk (i : Nat) (P : Block → Prop) (hp : P (f.blk i))
        (hr : i = f.head → P (f.blk i).reset) :
        P ((f.setBlk f.head (f.blk f.head).reset).blk i) := by
      by_cases hi : i = f.head
      · subst hi
        rw [setBlk_self]
        exact hr rfl
      · rw [setBlk_ne _ _ hi]
        exact hp
    exact
      { size_pos := h.size_pos
        tail_lt := h.tail_lt
        count_lt := h.count_lt
        head_eq := h.head_eq
        size := fun i => hblk i (·.size = _) (h.size i) fun _ => h.size i
        buf := fun i => hblk i (·.buf = _) (h.buf i) fun _ => h.buf i
        len_le := fun i => hblk i (·.len ≤ _) (h.len_le i) fun _ => Nat.zero_le _
        read_le := fun i => hblk i (fun b => b.read ≤ b.len) (h.read_le i) fun _ => Nat.le_refl _
        read_zero := fun i hi hne => hblk i (·.read = 0) (h.read_zero i hi hne) fun _ => rfl
        out := fun o ho => by
          cases ho
          refine ⟨rfl, hc, ?_, ?_⟩ <;> simp only [setBlk_self, Block.reset]
          exact h.size_pos
        inn := h.inn }

theorem writeStart_same (h : Inv f) (hs : f.writeStart = (f', some r)) : SameRing f f' := by
  obtain ⟨rfl, _⟩ | ⟨ho, hc, rfl⟩ := writeStart_cases h hs
  · exact .refl _
  · exact ⟨rfl, rfl, rfl, rfl, rfl, fun i hi => setBlk_ne _ _ fun he => h.head_not_mem (he ▸ hi)⟩

theorem writeStart_writing (h : Inv f) (hs : f.writeStart = (f', some r)) : f'.Writing r := by
  refine ⟨?_, writeStart_region h hs⟩
  obtain ⟨rfl, ho⟩ | ⟨ho, hc, rfl⟩ := writeStart_cases h hs
  · exact ho
  · rfl

theorem writeStart_filling (h : Inv f) (hs : f.writeStart = (f', some r)) (m : Mem UInt8) :
    f'.filling m = f.filling m := by
  obtain ⟨rfl, _⟩ | ⟨ho, hc, rfl⟩ := writeStart_cases h hs
  · rfl
  · simp only [filling, ho, setBlk_self, Block.reset, Mem.load_zero]

theorem writeComplete_open (hw : f.Writing r) (h : Inv f) (ha : amt ≠ 0) (hl : amt < r.maxAmt) :
    f.writeComplete amt =
      f.setBlk f.head { f.blk f.head with len := (f.blk f.head).len + amt } := by
  obtain ⟨ho, rfl⟩ := hw
  have hz := h.size f.head
  simp only at hl
  rw [writeComplete, ho]
  simp only
  rw [if_neg]
  simp only [hz, not_or]
  omega

theorem writeComplete_close (hw : f.Writing r) (h : Inv f) (ha : amt = 0 ∨ amt = r.maxAmt) :
    f.writeComplete amt =
      { f.setBlk f.head { f.blk f.head with len := (f.blk f.head).len + amt } with
        count := f.count + 1, head := f.pinc f.head, outBlk := none } := by
  obtain ⟨ho, rfl⟩ := hw
  have hz := h.size f.head
  have hl := h.len_le f.head
  simp only at ha
  rw [writeComplete, ho]
  simp only
  rw [if_pos]
  · rfl
  · simp only [hz]
    omega

theorem Inv.set_head (h : Inv f) (hw : f.Writing r) (ha : amt ≤ r.maxAmt) (i : Nat) :
    let b := { f.blk f.head with len := (f.blk f.head).len + amt }
    ((f.setBlk f.head b).blk i).size = f.blkSize ∧ ((f.setBlk f.head b).blk i).buf = ⟨i, 0⟩ ∧
      ((f.setBlk f.head b).blk i).len ≤ f.blkSize ∧
      ((f.setBlk f.head b).blk i).read ≤ ((f.setBlk f.head b).blk i).len ∧
      ((f.setBlk f.head b).blk i).read = (f.blk i).read := by
  obtain ⟨ho, rfl⟩ := hw
  have hl := (h.out _ ho).2.2.1
  have hr := h.read_le f.head
  simp only at ha
  by_cases hi : i = f.head
  · subst hi
    simp only [setBlk_self]
    exact ⟨h.size _, h.buf _, by omega, by omega, trivial⟩
  · simp only [setBlk_ne _ _ hi]
    exact ⟨h.size _, h.buf _, h.len_le _, h.read_le _, trivial⟩

theorem writeComplete_inv (h : Inv f) (hw : f.Writing r) (ha : amt ≤ r.maxAmt) :
    Inv (f.writeComplete amt) := by
  have hs := h.set_head hw ha
  by_cases hc : amt = 0 ∨ amt = r.maxAmt
  · rw [writeComplete_close hw h hc]
    obtain ⟨ho, rfl⟩ := hw
    have hb := (h.out _ ho).2.1
    exact
      { size_pos := h.size_pos
        tail_lt := h.tail_lt
        count_lt := hb
        head_eq := by
          change f.pinc f.head = (f.tail + (f.count + 1)) % f.blkCount
          rw [pinc, h.head_eq, Nat.mod_add_mod, Nat.add_assoc]
        size := fun i => (hs i).1
        buf := fun i => (hs i).2.1
        len_le := fun i => (hs i).2.2.1
        read_le := fun i => (hs i).2.2.2.1
        read_zero := fun i hi hne => by
          refine (hs i).2.2.2.2.trans ?_
          rw [ring] at hi
          change i ∈ slots f.blkCount f.tail (f.count + 1) at hi
          rw [slots_succ, List.mem_append, List.mem_singleton, ← h.head_eq] at hi
          rcases hi with hi | rfl
          · exact h.read_zero i hi hne
          · exact (h.out _ ho).2.2.2
        out := fun o ho => nomatch ho
        inn := fun i hi => ⟨(h.inn i hi).1, Nat.succ_pos _⟩ }
  · rw [not_or] at hc
    rw [writeComplete_open hw h hc.1 (Nat.lt_of_le_of_ne ha hc.2)]
    obtain ⟨ho, rfl⟩ := hw
    exact
      { size_pos := h.size_pos
        tail_lt := h.tail_lt
        count_lt := h.count_lt
        head_eq := h.head_eq
        size := fun i => (hs i).1
        buf := fun i => (hs i).2.1
        len_le := fun i => (hs i).2.2.1
        read_le := fun i => (hs i).2.2.2.1
        read_zero := fun i hi hne => (hs i).2.2.2.2.trans (h.read_zero i hi hne)
        out := fun o he => by
          have hout := h.out o he
          have hhead := hout.1
          subst hhead
          refine ⟨rfl, hout.2.1, ?_, (hs _).2.2.2.2.trans hout.2.2.2⟩
          simp only [setBlk_self]
          simp only at ha hc
          change _ < f.blkSize
          omega
        inn := h.inn }

theorem writeComplete_sameRing (h : Inv f) (hw : f.Writing r) (ha : amt ≠ 0)
    (hl : amt < r.maxAmt) : SameRing f (f.writeComplete amt) := by
  rw [writeComplete_open hw h ha hl]
  exact ⟨rfl, rfl, rfl, rfl, rfl, fun i hi => setBlk_ne _ _ fun he => h.head_not_mem (he ▸ hi)⟩

/-- Completing a write appends the committed part of the region to the block being filled,
or to the ring together with that block. -/
theorem writeComplete_content (h : Inv f) (hw : f.Writing r) (ha : amt ≤ r.maxAmt)
    (m : Mem UInt8) :
    (f.writeComplete amt).unread m ++ (f.writeComplete amt).filling m =
      f.unread m ++ f.filling m ++ m.load r.ptr amt := by
  have hn := h.head_not_mem
  have hbuf := h.buf f.head
  have hfill : f.filling m = m.load ⟨f.head, 0⟩ (f.blk f.head).len := by
    rw [filling_some hw.1, hbuf]
  have hptr : r.ptr = (⟨f.head, 0⟩ : Addr) + (f.blk f.head).len := by
    rw [hw.2]
    exact Addr.ext rfl (Nat.zero_add _).symm
  have hcat : f.filling m ++ m.load r.ptr amt =
      m.load ⟨f.head, 0⟩ ((f.blk f.head).len + amt) := by
    rw [hfill, hptr, Mem.load_add]
  rw [List.append_assoc, hcat]
  by_cases hc : amt = 0 ∨ amt = r.maxAmt
  · rw [writeComplete_close hw h hc]
    have hr := (h.out _ hw.1).2.2.2
    change (slots f.blkCount f.tail (f.count + 1)).flatMap _ ++ [] = _
    rw [slots_succ, ← h.head_eq, List.append_nil, List.flatMap_append, List.flatMap_singleton]
    congr 1
    · apply List.flatMap_congr
      intro i hi
      simp only [blockBytes, setBlk_ne _ _ fun he : i = f.head => hn (he ▸ hi)]
    · simp only [blockBytes, setBlk_self, hr, hbuf, Nat.sub_zero, Addr.add_zero]
  · rw [not_or] at hc
    have hl := Nat.lt_of_le_of_ne ha hc.2
    rw [(writeComplete_sameRing h hw hc.1 hl).unread, writeComplete_open hw h hc.1 hl]
    have hout : (f.setBlk f.head { f.blk f.head with len := (f.blk f.head).len + amt }).outBlk =
        some f.head := hw.1
    rw [filling_some hout, setBlk_self, hbuf]

theorem writeComplete_tail (f : BlockFifo) (amt : Nat) :
    (f.writeComplete amt).tail = f.tail ∧ (f.writeComplete amt).inBlk = f.inBlk ∧
      (f.writeComplete amt).blkSize = f.blkSize ∧ (f.writeComplete amt).blkCount = f.blkCount := by
  rw [writeComplete]
  split
  · dsimp only
    split <;> exact ⟨rfl, rfl, rfl, rfl⟩
  · exact ⟨rfl, rfl, rfl, rfl⟩

theorem writeComplete_blk (h : Inv f) (hw : f.Writing r) (hi : i ∈ f.ring) :
    (f.writeComplete amt).blk i = f.blk i := by
  have hne : i ≠ f.head := fun he => h.head_not_mem (he ▸ hi)
  rw [writeComplete, hw.1]
  dsimp only
  split <;> exact setBlk_ne _ _ hne

theorem writeComplete_reading (h : Inv f) (hw : f.Writing r) (hr : f.Reading r') :
    (f.writeComplete amt).Reading r' := by
  obtain ⟨hb, rfl⟩ := hr
  have hf := writeComplete_tail f amt
  have ht : (f.writeComplete amt).blk f.tail = f.blk f.tail :=
    writeComplete_blk h hw (h.tail_mem (h.inn _ hb).2)
  exact ⟨by rw [hf.2.1, hf.1, hb], by rw [hf.1, ht]⟩

theorem writeComplete_ring (h : Inv f) (hw : f.Writing r) (ha : amt ≤ r.maxAmt)
    (hi : i ∈ (f.writeComplete amt).ring) :
    i ∈ f.ring ∨ i = f.head ∧ (amt = 0 ∨ amt = r.maxAmt) ∧
      (f.writeComplete amt).blk i = { f.blk f.head with len := (f.blk f.head).len + amt } := by
  by_cases hc : amt = 0 ∨ amt = r.maxAmt
  · rw [writeComplete_close hw h hc] at hi ⊢
    change i ∈ slots f.blkCount f.tail (f.count + 1) at hi
    rw [slots_succ, List.mem_append, List.mem_singleton, ← h.head_eq] at hi
    rcases hi with hi | rfl
    · exact .inl hi
    · exact .inr ⟨rfl, hc, setBlk_self ..⟩
  · rw [not_or] at hc
    rw [writeComplete_open hw h hc.1 (Nat.lt_of_le_of_ne ha hc.2)] at hi
    exact .inl hi

theorem store_same (h : Inv f) (hw : f.Writing r) (hb : off + bs.length ≤ r.maxAmt)
    (m : Mem UInt8) :
    f.unread (m.store (r.ptr + off) bs) = f.unread m ∧
      f.filling (m.store (r.ptr + off) bs) = f.filling m := by
  obtain ⟨ho, rfl⟩ := hw
  constructor
  · apply List.flatMap_congr
    intro i hi
    have hne : i ≠ f.head := fun he => h.head_not_mem (he ▸ hi)
    apply Mem.load_store_apart
    left
    simpa only [Addr.add_obj, h.buf] using hne
  · rw [filling, filling, ho]
    apply Mem.load_store_apart
    right; left
    simp only [h.buf, Addr.add_off]
    omega

end BlockFifo
end Avs4000
