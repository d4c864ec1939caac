import Avs4000.RawRxTrack
import Avs4000.RxSamples

namespace Avs4000
set_option autoImplicit true

/-- The bytes the pump has received and not yet completed. -/
def ReadDataPc.late : ReadDataPc → Nat
  | .got n => n
  | _ => 0

open BlockFifo

theorem BlockFifo.Inv.filled_lt (h : Inv f) : f.filled < f.blkSize := by
  cases ho : f.outBlk with
  | none =>
    rw [filled, ho]
    exact h.size_pos
  | some o =>
    rw [filled, ho]
    exact (h.out o ho).2.2.1

theorem BlockFifo.length_filling (f : BlockFifo) (m : Memory.Mem UInt8) :
    (f.filling m).length = f.filled := by
  cases ho : f.outBlk with
  | none => rw [filling_none ho, filled, ho]; rfl
  | some o =>
    rw [filling_some ho, filled, ho]
    exact Memory.Mem.length_load ..

theorem BlockFifo.SameFill.filled (h : SameFill f f') (hi : Inv f) : f'.filled = f.filled := by
  rw [← length_filling f' fun _ => 0, h.filling hi, length_filling]

theorem BlockFifo.filled_writeComplete (h : Inv f) (hw : f.Writing r) (hp : 0 < amt)
    (ha : amt ≤ r.maxAmt) :
    ∃ j, f.filled + amt = f.blkSize * j + (f.writeComplete amt).filled := by
  obtain rfl | hne := Decidable.eq_or_ne amt r.maxAmt
  · have hmax : r.maxAmt = f.blkSize - (f.blk f.head).len := congrArg Region.maxAmt hw.2
    have hlt := (h.out _ hw.1).2.2.1
    refine ⟨1, ?_⟩
    rw [filled_close h hw, hw.filled, hmax]
    omega
  · exact ⟨0, by rw [filled_open h hw hp (Nat.lt_of_le_of_ne ha hne), Nat.mul_zero, Nat.zero_add]⟩

/-- What is received is whole blocks and what the block being filled has. -/
structure InBlocks (b : Nat) (f : BlockFifo) (received : List UInt8) (pump : ReadDataPc) :
    Prop where
  size : f.blkSize = b
  held : pump ≠ .idle → f.outBlk ≠ none
  blocks : ∃ k, received.length = b * k + (f.filled + pump.late)

namespace InBlocks

theorem consumer (h : InBlocks b f received pump) (hi : Inv f) (hs : SameFill f f') :
    InBlocks b f' received pump :=
  ⟨hs.blkSize.trans h.size, fun hp => hs.outBlk ▸ h.held hp, hs.filled hi ▸ h.blocks⟩

theorem idle (h : InBlocks b f received pump) (hp : pump.late = 0) :
    InBlocks b f received .idle := by
  obtain ⟨k, hk⟩ := h.blocks
  rw [hp] at hk
  exact ⟨h.size, fun hn => absurd rfl hn, k, hk⟩

theorem start (h : InBlocks b f received .idle) (hi : Inv f) (hw : f.writeStart = (f', some r)) :
    InBlocks b f' received (.holding r) := by
  have hout := (writeStart_writing hi hw).1
  refine ⟨(writeStart_same hi hw).blkSize.trans h.size, fun _ => hout ▸ Option.some_ne_none _, ?_⟩
  rw [filled_writeStart hi hw]
  exact h.blocks

theorem data (h : InBlocks b f received (.holding r)) (bs : List UInt8) (hl : bs.length = n) :
    InBlocks b f (received ++ bs) (.got n) := by
  obtain ⟨k, hk⟩ := h.blocks
  refine ⟨h.size, fun _ => h.held (by rintro ⟨⟩), k, ?_⟩
  rw [List.length_append, hk, hl]
  exact Nat.add_assoc ..

theorem complete (h : InBlocks b f received (.got n)) (hi : Inv f) (hw : f.Writing r)
    (hp : 0 < n) (hm : n ≤ r.maxAmt) : InBlocks b (f.writeComplete n) received .idle := by
  obtain ⟨k, hk⟩ := h.blocks
  obtain ⟨j, hj⟩ := filled_writeComplete hi hw hp hm
  refine ⟨(writeComplete_tail f n).2.2.1.trans h.size, fun hn => absurd rfl hn, k + j, ?_⟩
  rw [hk, ReadDataPc.late, hj, h.size, Nat.mul_add, Nat.add_assoc]
  rfl

theorem new (b c : Nat) : InBlocks b (.new b c) [] .idle := ⟨rfl, fun hn => absurd rfl hn, 0, rfl⟩

theorem filled_eq (h : InBlocks b f received .idle) (hi : Inv f) :
    f.filled = received.length % b := by
  obtain ⟨k, hk⟩ := h.blocks
  have hlt := hi.filled_lt
  rw [h.size] at hlt
  rw [hk, Nat.mul_add_mod]
  exact (Nat.mod_eq_of_lt hlt).symm

end InBlocks

namespace RawRxSystem

theorem receiveStep_sameFill {s t : RawRxSystem} (h : Inv s) (hs : ReceiveStep s t) :
    SameFill s.buffer.fifo t.buffer.fifo ∧ t.received = s.received ∧ t.pump = s.pump := by
  have hcaller := h.caller
  cases hs with
  | enter | finish | nothing | goOn | full | copy => exact ⟨.refl _, rfl, rfl⟩
  | empty hc hlt hr =>
    obtain ⟨rfl, _⟩ := readStart_none hr
    exact ⟨.refl _, rfl, rfl⟩
  | look hc hlt hr => exact ⟨readStart_same h.fifo hr, rfl, rfl⟩
  | copied hc =>
    rw [hc] at hcaller
    obtain ⟨_, p, _, hp, _⟩ := hcaller
    exact ⟨readComplete_same h.fifo hp, rfl, rfl⟩

theorem step_inBlocks {s t : RawRxSystem} (h : Inv s)
    (hb : InBlocks b s.buffer.fifo s.received s.pump) (hs : Step s a t) :
    InBlocks b t.buffer.fifo t.received t.pump := by
  obtain ⟨late, hpump, _⟩ := h.queue
  cases hs with
  | receive => exact hb
  | receiveStep hs =>
    obtain ⟨hsame, hr, hp⟩ := receiveStep_sameFill h hs
    rw [hr, hp]
    exact hb.consumer h.fifo hsame
  | startNone hp hd hw =>
    obtain ⟨rfl, _⟩ := writeStart_none hw
    exact hb.idle (by rw [hp]; rfl)
  | startSome hp hd hw =>
    rw [hp] at hb
    exact hb.start h.fifo hw
  | again hp | closed hp => exact hb.idle (by rw [hp]; rfl)
  | data hp hm hn =>
    rw [hp] at hb
    exact hb.data _ (List.length_take_of_le hn)
  | complete hp =>
    rw [hp] at hb hpump
    obtain ⟨hpos, r, hw, hle, _⟩ := hpump
    exact hb.complete h.fifo hw hpos hle

end RawRxSystem

namespace RxSystem
open TcpRxSignalClient (complete)

theorem receiveStep_sameFill {s t : RxSystem} (h : Inv s) (hs : ReceiveStep s t) :
    SameFill s.client.buffer.fifo t.client.buffer.fifo ∧ t.received = s.received ∧
      t.pump = s.pump := by
  have hcaller := h.caller
  cases hs with
  | enter | timeout | goOn | finish | copy | fault => exact ⟨.refl _, rfl, rfl⟩
  | noBlock hc hr => exact absurd hr (h.readStart_ne_none hc)
  | parse hc hr hk =>
    subst hk
    exact ⟨readStart_same h.fifo hr, rfl, rfl⟩
  | copied hc =>
    rw [hc] at hcaller
    obtain ⟨_, _, ⟨_, r, _, hr⟩, _⟩ := hcaller
    refine ⟨?_, rfl, rfl⟩
    change SameFill _ s.client.complete.buffer.fifo
    rw [complete]
    split
    · exact readComplete_same h.fifo hr
    · exact .refl _

theorem step_inBlocks {s t : RxSystem} (h : Inv s) (hf : a ≠ .flush)
    (hb : InBlocks b s.client.buffer.fifo s.received s.pump) (hs : Step s a t) :
    InBlocks b t.client.buffer.fifo t.received t.pump := by
  have hpump := h.pump
  cases hs with
  | receive => exact hb
  | receiveStep hs =>
    obtain ⟨hsame, hr, hp⟩ := receiveStep_sameFill h hs
    rw [hr, hp]
    exact hb.consumer h.fifo hsame
  | flush => exact absurd rfl hf
  | startNone hp hd hw =>
    obtain ⟨rfl, _⟩ := writeStart_none hw
    exact hb.idle (by rw [hp]; rfl)
  | startSome hp hd hw =>
    rw [hp] at hb
    exact hb.start h.fifo hw
  | again hp | closed hp => exact hb.idle (by rw [hp]; rfl)
  | data hp hm hn =>
    rw [hp] at hb
    exact hb.data _ (List.length_take_of_le hn)
  | complete hp =>
    rw [hp] at hb hpump
    obtain ⟨hpos, ⟨ho, _⟩ | ⟨r, hw, hle⟩⟩ := hpump
    · exact absurd ho (hb.held (by rintro ⟨⟩))
    · exact hb.complete h.fifo hw hpos hle

end RxSystem
end Avs4000
