import Avs4000.Lib.Run
import Avs4000.BlockFifoRegions

namespace Avs4000
set_option autoImplicit true

namespace BlockFifo

/-- Every slot of `blk` below `blkCount` has a block, so `outBlk` is not null after `blk[head]`. -/
def writeStartAsserts (f : BlockFifo) : Prop := f.outBlk = none → ¬f.full → f.head < f.blkCount

def writeCompleteAsserts (f : BlockFifo) (amt : Nat) : Prop :=
  ∀ o, f.outBlk = some o →
    amt ≤ (f.blk o).size - (f.blk o).len ∧ (f.blk o).len + amt ≤ (f.blk o).size

def readStartAsserts (f : BlockFifo) : Prop := f.inBlk ≠ none ∨ ¬f.empty → 0 < f.count

def readCompleteAsserts (f : BlockFifo) (amt : Nat) : Prop :=
  ∀ i, f.inBlk = some i →
    0 < f.count ∧ (f.blk i).len ≤ (f.blk i).size ∧ (f.blk i).read + amt ≤ (f.blk i).len

/-- How the fields of the ring fit together. -/
structure Represents (f : BlockFifo) : Prop where
  head_lt : f.head < f.blkCount
  tail_lt : f.tail < f.blkCount
  count_eq : f.count = (f.head + f.blkCount - f.tail) % f.blkCount
  empty_iff : f.empty ↔ f.count = 0
  full_iff : f.full ↔ f.count = f.blkCount - 1
  outBlk : ∀ o, f.outBlk = some o → o = f.head ∧ (f.blk o).len < (f.blk o).size ∧ ¬f.full
  inBlk : ∀ i, f.inBlk = some i → i = f.tail ∧ 0 < f.count
  blk : ∀ i, (f.blk i).read ≤ (f.blk i).len ∧ (f.blk i).len ≤ (f.blk i).size

theorem Inv.head_lt (h : Inv f) : f.head < f.blkCount := by
  rw [h.head_eq]
  exact Nat.mod_lt _ (Nat.zero_lt_of_lt h.tail_lt)

theorem Inv.count_eq (h : Inv f) : f.count = (f.head + f.blkCount - f.tail) % f.blkCount := by
  have ht := h.tail_lt
  have hc := h.count_lt
  rw [h.head_eq]
  by_cases hw : f.tail + f.count < f.blkCount
  · have he : f.tail + f.count + f.blkCount - f.tail = f.count + f.blkCount := by omega
    rw [Nat.mod_eq_of_lt hw, he, Nat.add_mod_right, Nat.mod_eq_of_lt hc]
  · have hm : (f.tail + f.count) % f.blkCount = f.tail + f.count - f.blkCount := by
      rw [Nat.mod_eq_sub_mod (Nat.le_of_not_lt hw)]
      exact Nat.mod_eq_of_lt (by omega)
    have he : f.tail + f.count - f.blkCount + f.blkCount - f.tail = f.count := by omega
    rw [hm, he, Nat.mod_eq_of_lt hc]

theorem Inv.represents (h : Inv f) : f.Represents where
  head_lt := h.head_lt
  tail_lt := h.tail_lt
  count_eq := h.count_eq
  empty_iff := h.empty_iff
  full_iff := by
    have hc := h.count_lt
    rw [h.full_iff]
    omega
  outBlk o ho := by
    obtain ⟨he, hc, hl, _⟩ := h.out o ho
    rw [h.size, h.full_iff]
    exact ⟨he, hl, Nat.ne_of_lt hc⟩
  inBlk := h.inn
  blk i := ⟨h.read_le i, h.size i ▸ h.len_le i⟩

theorem Writing.maxAmt_pos (h : Inv f) (hw : f.Writing r) : 0 < r.maxAmt := by
  obtain ⟨ho, rfl⟩ := hw
  exact Nat.sub_pos_of_lt (h.out _ ho).2.2.1

theorem Writing.asserts (h : Inv f) (hw : f.Writing r) (ha : amt ≤ r.maxAmt) :
    f.writeCompleteAsserts amt := by
  intro o ho
  obtain ⟨_, rfl⟩ := hw
  obtain ⟨rfl, _, hl, _⟩ := h.out o ho
  rw [h.size]
  exact ⟨ha, Nat.add_comm amt _ ▸ Nat.add_le_of_le_sub (Nat.le_of_lt hl) ha⟩

theorem Reading.asserts (h : Inv f) (hr : f.Reading r) (ha : amt ≤ r.maxAmt) :
    f.readCompleteAsserts amt := by
  intro i hi
  obtain ⟨_, rfl⟩ := hr
  obtain ⟨rfl, hc⟩ := h.inn i hi
  rw [h.size]
  exact ⟨hc, h.len_le _, Nat.add_comm amt _ ▸ Nat.add_le_of_le_sub (h.read_le _) ha⟩

end BlockFifo

/-- A producer and a consumer, each with the region it holds between a start and its completion,
on a ring that may be reset at any point. -/
structure FifoUsers where
  fifo : BlockFifo
  wr : Option Region
  rd : Option Region

namespace FifoUsers
open BlockFifo

def init (blkSize blkCount : Nat) : FifoUsers := ⟨.new blkSize blkCount, none, none⟩

inductive Act
  | writeStart
  | writeComplete (amt : Nat)
  | readStart
  | readComplete (amt : Nat)
  | reset

/-- A start that succeeds is followed by one completion. -/
def step (s : FifoUsers) : Act → Option FifoUsers
  | .writeStart =>
    match s.wr with
    | none => some { s with fifo := s.fifo.writeStart.1, wr := s.fifo.writeStart.2 }
    | some _ => none
  | .writeComplete amt => s.wr.bind fun r =>
    if amt ≤ r.maxAmt then some { s with fifo := s.fifo.writeComplete amt, wr := none } else none
  | .readStart =>
    match s.rd with
    | none => some { s with fifo := s.fifo.readStart.1, rd := s.fifo.readStart.2 }
    | some _ => none
  | .readComplete amt => s.rd.bind fun r =>
    if amt ≤ r.maxAmt then some { s with fifo := s.fifo.readComplete amt, rd := none } else none
  | .reset => some { s with fifo := s.fifo.reset }

/-- What the operation asserts when it is called in this state. The one in `Reset` is under the
test it repeats. -/
def Asserts (s : FifoUsers) : Act → Prop
  | .writeStart => s.fifo.writeStartAsserts
  | .writeComplete amt => s.fifo.writeCompleteAsserts amt
  | .readStart => s.fifo.readStartAsserts
  | .readComplete amt => s.fifo.readCompleteAsserts amt
  | .reset => True

/-- A region held is the one the ring would hand out again, unless a reset came in between. -/
structure Inv (s : FifoUsers) : Prop where
  fifo : s.fifo.Inv
  wr : ∀ r, s.wr = some r → s.fifo.outBlk = none ∨ s.fifo.Writing r
  rd : ∀ r, s.rd = some r → s.fifo.inBlk = none ∨ s.fifo.Reading r

theorem Inv.producer (h : Inv s) (hk : KeepsReading s.fifo f) {w : Option Region}
    (hw : ∀ r, w = some r → f.outBlk = none ∨ f.Writing r) : Inv ⟨f, w, s.rd⟩ :=
  ⟨hk.inv, hw, fun r hr => (h.rd r hr).imp hk.inBlk.trans (hk.reading r)⟩

theorem Inv.consumer (h : Inv s) (hk : KeepsWriting s.fifo f) {d : Option Region}
    (hr : ∀ r, d = some r → f.inBlk = none ∨ f.Reading r) : Inv ⟨f, s.wr, d⟩ :=
  ⟨hk.inv, fun r hw => (h.wr r hw).imp hk.outBlk.trans (hk.writing r), hr⟩

theorem step_inv (h : Inv s) (hs : step s a = some t) : Inv t := by
  cases a with
  | writeStart =>
    simp only [step] at hs
    split at hs
    · cases hs
      have hk : KeepsReading s.fifo s.fifo.writeStart.1 := keepsReading_writeStart h.fifo rfl
      refine h.producer hk ?_
      intro r hr
      exact .inr (writeStart_writing h.fifo (Prod.ext rfl hr))
    · cases hs
  | writeComplete amt =>
    obtain ⟨r, hr, hs⟩ := Option.bind_eq_some_iff.1 hs
    split at hs
    · next ha =>
      cases hs
      rcases h.wr r hr with ho | hw
      · rw [writeComplete_outBlk_none ho]
        exact h.producer (.refl h.fifo) nofun
      · exact h.producer (keepsReading_writeComplete h.fifo hw ha) nofun
    · cases hs
  | readStart =>
    simp only [step] at hs
    split at hs
    · cases hs
      have hk : KeepsWriting s.fifo s.fifo.readStart.1 := keepsWriting_readStart h.fifo rfl
      refine h.consumer hk ?_
      intro r hr
      exact .inr (readStart_cases h.fifo (Prod.ext rfl hr)).2.2
    · cases hs
  | readComplete amt =>
    obtain ⟨r, hr, hs⟩ := Option.bind_eq_some_iff.1 hs
    split at hs
    · next ha =>
      cases hs
      rcases h.rd r hr with hi | hr
      · rw [readComplete_inBlk_none hi]
        exact h.consumer (.refl h.fifo) nofun
      · exact h.consumer (keepsWriting_readComplete h.fifo hr ha) nofun
    · cases hs
  | reset =>
    cases hs
    exact ⟨reset_inv h.fifo, fun _ _ => .inl rfl, fun _ _ => .inl rfl⟩

theorem init_inv {b c : Nat} (hb : 0 < b) (hc : 0 < c) : Inv (init b c) :=
  ⟨new_inv hb hc, nofun, nofun⟩

theorem step_asserts (h : Inv s) (hs : step s a = some t) : s.Asserts a := by
  cases a with
  | writeStart => exact fun _ _ => h.fifo.head_lt
  | writeComplete amt =>
    obtain ⟨r, hr, hs⟩ := Option.bind_eq_some_iff.1 hs
    split at hs
    · next ha =>
      rcases h.wr r hr with ho | hw
      · intro o ho'
        cases ho.symm.trans ho'
      · exact hw.asserts h.fifo ha
    · cases hs
  | readStart =>
    rintro (hi | he)
    · obtain ⟨i, hi⟩ := Option.ne_none_iff_exists'.1 hi
      exact (h.fifo.inn i hi).2
    · rw [h.fifo.empty_iff] at he
      exact Nat.pos_of_ne_zero he
  | readComplete amt =>
    obtain ⟨r, hr, hs⟩ := Option.bind_eq_some_iff.1 hs
    split at hs
    · next ha =>
      rcases h.rd r hr with hi | hr
      · intro i hi'
        cases hi.symm.trans hi'
      · exact hr.asserts h.fifo ha
    · cases hs
  | reset => trivial

/-- However the two sides and the resets are interleaved, the fields of the ring fit together and
every assertion holds. -/
theorem represents_and_asserts {b c : Nat} (hb : 1 ≤ b) (hc : 2 ≤ c)
    (hr : Sys.run step (init b c) acts = some s) :
    s.fifo.Represents ∧ (∀ f r, s.fifo.writeStart = (f, some r) → 0 < r.maxAmt) ∧
      ∀ a t, step s a = some t → s.Asserts a := by
  have h : Inv s := Sys.run_invariant (fun _ _ _ h hs => step_inv h hs)
    (init_inv hb (Nat.lt_of_lt_of_le Nat.zero_lt_two hc)) hr
  refine ⟨h.fifo.represents, fun f r hw => ?_, fun a t hs => step_asserts h hs⟩
  exact (writeStart_writing h.fifo hw).maxAmt_pos (writeStart_inv h.fifo hw)

theorem represents_and_asserts_reset :
    ∃ s, Sys.run step (init 1 2) [.writeStart, .reset, .writeComplete 1, .writeStart,
        .writeComplete 1, .readStart, .reset, .readComplete 1, .writeStart] = some s ∧
      s.fifo.Represents := by
  obtain ⟨s, hs⟩ : ∃ s, Sys.run step (init 1 2) [.writeStart, .reset, .writeComplete 1,
      .writeStart, .writeComplete 1, .readStart, .reset, .readComplete 1, .writeStart] = some s :=
    ⟨_, rfl⟩
  exact ⟨s, hs, (represents_and_asserts (by decide) (by decide) hs).1⟩

end FifoUsers
end Avs4000
