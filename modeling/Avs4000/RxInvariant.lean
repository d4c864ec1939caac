import Avs4000.BlockFifoRegions
import Avs4000.RxSteps
import Avs4000.V49Agreement

namespace Avs4000
namespace RxSystem
open Memory
open BlockFifo hiding count
open TcpRxSignalClient (pktSize receiveAmt complete)
set_option autoImplicit true

/-- A block is a whole number of packets, committed when full and read packet by packet. -/
structure WholeBlocks (f : BlockFifo) : Prop where
  size : f.blkSize % 0x2000 = 0
  read : ∀ i, (f.blk i).read % 0x2000 = 0
  ring : ∀ i ∈ f.ring, (f.blk i).len = f.blkSize ∧ (f.blk i).read < f.blkSize

/-- The packet being read lies at the start of what the ring shows next. -/
structure OpenPacket (c : TcpRxSignalClient) : Prop where
  samplesLen : c.packet.samplesLen = 2040
  place : ∃ r, c.packet.samples = some (r.ptr + 28) ∧ c.buffer.fifo.Reading r

/-- What holds at each point of `ReceiveSamples`. -/
def CallerOk (c : TcpRxSignalClient) : ReceivePc → Prop
  | .idle => c.partialCount = 0 ∨ OpenPacket c ∧ c.partialCount < 2040
  | .loop count recv samples _ =>
    samples.length = recv ∧ recv ≤ count ∧
      (c.partialCount = 0 ∨ OpenPacket c ∧ c.partialCount < 2040)
  | .ready count recv samples _ =>
    samples.length = recv ∧ recv < count ∧ c.partialCount = 0 ∧ 0 < c.buffer.fifo.count
  | .copy count recv samples _ =>
    samples.length = recv ∧ recv < count ∧ OpenPacket c ∧ c.partialCount < 2040
  | .copied count recv samples _ amt =>
    samples.length = recv + amt ∧ recv + amt ≤ count ∧ OpenPacket c ∧ 0 < amt ∧
      amt ≤ c.partialCount ∧ c.partialCount ≤ 2040
  | .fault => False

/-- The pump holds the region the ring would hand out again, unless a `Flush` came in between,
which left the ring empty. -/
def PumpOk (f : BlockFifo) : ReadDataPc → Prop
  | .idle => True
  | .holding r => f.outBlk = none ∧ f.count = 0 ∨ f.Writing r
  | .got rval => 0 < rval ∧ (f.outBlk = none ∧ f.count = 0 ∨ ∃ r, f.Writing r ∧ rval ≤ r.maxAmt)

structure Inv (s : RxSystem) : Prop where
  fifo : s.client.buffer.fifo.Inv
  blocks : WholeBlocks s.client.buffer.fifo
  caller : CallerOk s.client s.caller
  pump : PumpOk s.client.buffer.fifo s.pump
  done : s.client.buffer.done = true → s.pump = .idle
  calls : ∀ c ∈ s.calls, c.samples.length ≤ c.count

theorem WholeBlocks.new {b c : Nat} (hb : b % 0x2000 = 0) : WholeBlocks (.new b c) :=
  ⟨hb, fun _ => rfl, fun _ hi => nomatch hi⟩

section
variable {f f' : BlockFifo}

theorem WholeBlocks.reading (h : WholeBlocks f) (hi : f.Inv) (hr : f.Reading r) :
    pktSize ≤ r.maxAmt := by
  obtain ⟨hin, rfl⟩ := hr
  obtain ⟨hl, hlt⟩ := h.ring _ (hi.tail_mem (hi.inn _ hin).2)
  have hs := h.size
  have hread := h.read f.tail
  simp only [hl, pktSize]
  omega

theorem WholeBlocks.writeStart (h : WholeBlocks f) (hi : f.Inv) (hs : f.writeStart = (f', buf)) :
    WholeBlocks f' := by
  cases buf with
  | none =>
    obtain ⟨rfl, _⟩ := writeStart_none hs
    exact h
  | some r =>
    have hsame := writeStart_same hi hs
    refine ⟨hsame.blkSize ▸ h.size, fun i => ?_, fun i hm => ?_⟩
    · obtain ⟨rfl, _⟩ | ⟨_, _, rfl⟩ := writeStart_cases hi hs
      · exact h.read i
      · by_cases he : i = f.head
        · subst he
          exact congrArg (·.read % 0x2000) (setBlk_self ..)
        · exact (congrArg (·.read % 0x2000) (setBlk_ne _ _ he)).trans (h.read i)
    · rw [hsame.ring] at hm
      rw [hsame.blk i hm, hsame.blkSize]
      exact h.ring i hm

theorem WholeBlocks.writeComplete (h : WholeBlocks f) (hi : f.Inv) (hw : f.Writing r)
    (ha : amt ≤ r.maxAmt) (hpos : 0 < amt) : WholeBlocks (f.writeComplete amt) := by
  have hsize := (writeComplete_tail f amt).2.2.1
  refine ⟨hsize ▸ h.size, fun i => ?_, fun i hm => ?_⟩
  · rw [writeComplete_blk_eq hw]
    split
    · exact h.read f.head
    · exact h.read i
  · rcases writeComplete_ring hi hw ha hm with hm | ⟨rfl, hc, hb⟩
    · rw [writeComplete_blk hi hw hm, hsize]
      exact h.ring i hm
    · obtain ⟨ho, rfl⟩ := hw
      obtain ⟨_, _, hl, hread⟩ := hi.out _ ho
      have hfull := hc.resolve_left (Nat.pos_iff_ne_zero.1 hpos)
      rw [hb, hsize, hread]
      exact ⟨by simp only at hfull ⊢; omega, hi.size_pos⟩

theorem WholeBlocks.readStart (h : WholeBlocks f) (hi : f.Inv) (hs : f.readStart = (f', some r)) :
    WholeBlocks f' := by
  obtain ⟨_, rfl, _⟩ := readStart_cases hi hs
  exact ⟨h.size, h.read, h.ring⟩

theorem WholeBlocks.readComplete (h : WholeBlocks f) (hi : f.Inv) (hr : f.Reading r) :
    WholeBlocks (f.readComplete pktSize) := by
  have hmax := h.reading hi hr
  have hcount := (hi.inn _ hr.1).2
  have hsize : (f.readComplete pktSize).blkSize = f.blkSize := (readComplete_same hi hr).blkSize
  refine ⟨hsize ▸ h.size, fun i => ?_, fun i hm => ?_⟩
  · rw [readComplete_blk_eq hr]
    split
    · exact (Nat.add_mod_right ..).trans (h.read f.tail)
    · exact h.read i
  · rw [readComplete_blk_eq hr, hsize]
    by_cases he : pktSize = r.maxAmt
    · rw [readComplete_close hr hi he] at hm
      have hne : i ≠ f.tail := fun hit =>
        Ring.tail_not_mem_rest hi.tail_lt hi.count_lt (hit ▸ hm)
      rw [if_neg hne]
      exact h.ring i (ring_eq_cons hi hcount ▸ List.mem_cons_of_mem _ hm)
    · have hlt := Nat.lt_of_le_of_ne hmax he
      rw [readComplete_open hr hlt] at hm
      obtain ⟨hl, hread⟩ := h.ring i hm
      split
      · next hit =>
        subst hit
        obtain ⟨_, rfl⟩ := hr
        refine ⟨hl, ?_⟩
        simp only [hl] at hlt ⊢
        omega
      · exact ⟨hl, hread⟩

theorem WholeBlocks.reset (h : WholeBlocks f) : WholeBlocks f.reset := by
  refine ⟨h.size, fun i => ?_, fun i hm => nomatch hm⟩
  rcases reset_blk f i with hb | hb <;> rw [hb]
  · rfl
  · exact h.read i

end

theorem PumpOk.consumer (h : PumpOk f pc) (hk : KeepsWriting f f') : PumpOk f' pc := by
  have hstale : f.outBlk = none ∧ f.count = 0 → f'.outBlk = none ∧ f'.count = 0 :=
    fun ⟨ho, hc⟩ => ⟨hk.outBlk.trans ho, Nat.eq_zero_of_le_zero (hc ▸ hk.count)⟩
  cases pc with
  | idle => trivial
  | holding r => exact h.imp hstale (hk.writing r)
  | got rval => exact ⟨h.1, h.2.imp hstale fun ⟨r, hr, hn⟩ => ⟨r, hk.writing r hr, hn⟩⟩

theorem OpenPacket.producer {c : TcpRxSignalClient} {b : SocketRxBuffer} (h : OpenPacket c)
    (hk : KeepsReading c.buffer.fifo b.fifo) : OpenPacket { c with buffer := b } := by
  obtain ⟨hl, r, hs, hr⟩ := h
  exact ⟨hl, r, hs, hk.reading r hr⟩

theorem CallerOk.producer {c : TcpRxSignalClient} {b : SocketRxBuffer} (h : CallerOk c pc)
    (hk : KeepsReading c.buffer.fifo b.fifo) : CallerOk { c with buffer := b } pc := by
  cases pc with
  | idle => exact h.imp_right fun ⟨ho, hp⟩ => ⟨ho.producer hk, hp⟩
  | loop => exact ⟨h.1, h.2.1, h.2.2.imp_right fun ⟨ho, hp⟩ => ⟨ho.producer hk, hp⟩⟩
  | ready => exact ⟨h.1, h.2.1, h.2.2.1, Nat.lt_of_lt_of_le h.2.2.2 hk.count⟩
  | copy => exact ⟨h.1, h.2.1, h.2.2.1.producer hk, h.2.2.2⟩
  | copied => exact ⟨h.1, h.2.1, h.2.2.1.producer hk, h.2.2.2⟩
  | fault => exact h

theorem receiveAmt_bounds {c : TcpRxSignalClient} {count recv : Nat} (h : OpenPacket c)
    (hp : c.partialCount < 2040) (hs : recv < count) :
    0 < c.receiveAmt count recv ∧ recv + c.receiveAmt count recv ≤ count ∧
      c.partialCount + c.receiveAmt count recv ≤ 2040 := by
  rw [receiveAmt, h.samplesLen]
  split <;> omega

theorem calls_ret {s : RxSystem} {count : Nat} {samples : List UInt32}
    (h : ∀ c ∈ s.calls, c.samples.length ≤ c.count) (hl : samples.length ≤ count) (recv : Nat)
    (tList : List TimeTag) :
    ∀ c ∈ (s.ret count recv samples tList).calls, c.samples.length ≤ c.count := by
  intro c hc
  rcases List.mem_append.1 hc with hc | hc
  · exact h c hc
  · rw [List.mem_singleton.1 hc]
    exact Nat.le_trans (List.length_take_le' ..) hl

theorem Inv.readStart_ne_none (h : Inv s) (hc : s.caller = .ready count recv samples tList) :
    s.client.buffer.fifo.readStart ≠ (f', none) := by
  intro hr
  have hcaller := h.caller
  rw [hc] at hcaller
  obtain ⟨_, _, hempty⟩ := readStart_none hr
  rw [h.fifo.empty_iff] at hempty
  exact absurd hempty (Nat.ne_of_gt hcaller.2.2.2)

theorem Inv.samples_ne_none (h : Inv s) (hc : s.caller = .copy count recv samples tList) :
    s.client.packet.samples ≠ none := by
  have hcaller := h.caller
  rw [hc] at hcaller
  obtain ⟨_, _, ⟨_, r, hs, _⟩, _⟩ := hcaller
  rw [hs]
  exact Option.some_ne_none _

theorem receiveStep_inv (h : Inv s) (hs : ReceiveStep s t) : Inv t := by
  have hcaller := h.caller
  cases hs with
  | enter hc hlt hz hf =>
    rw [hc] at hcaller
    rw [h.fifo.empty_iff] at hf
    exact ⟨h.fifo, h.blocks, ⟨hcaller.1, hlt, hz, Nat.pos_of_ne_zero hf⟩, h.pump, h.done, h.calls⟩
  | @timeout count recv samples tList hc hlt hz hf =>
    rw [hc] at hcaller
    obtain ⟨hl, hle, _⟩ := hcaller
    exact ⟨h.fifo, h.blocks, .inl hz, h.pump, h.done, calls_ret h.calls (hl ▸ hle) recv tList⟩
  | goOn hc hlt hz =>
    rw [hc] at hcaller
    obtain ⟨hl, _, hp⟩ := hcaller
    exact ⟨h.fifo, h.blocks, ⟨hl, hlt, hp.resolve_left hz⟩, h.pump, h.done, h.calls⟩
  | @finish count recv samples tList hc hge =>
    rw [hc] at hcaller
    obtain ⟨hl, hle, hp⟩ := hcaller
    exact ⟨h.fifo, h.blocks, hp, h.pump, h.done, calls_ret h.calls (hl ▸ hle) recv tList⟩
  | noBlock hc hr => exact absurd hr (h.readStart_ne_none hc)
  | parse hc hr hk =>
    rw [hc] at hcaller
    obtain ⟨hl, hlt, hz, _⟩ := hcaller
    subst hk
    have hk := keepsWriting_readStart h.fifo hr
    have hreading := (readStart_cases h.fifo hr).2.2
    exact ⟨hk.inv, h.blocks.readStart h.fifo hr,
      ⟨hl, hlt, ⟨V49Packet.samplesFor_packet, _, rfl, hreading⟩, hz.trans_lt (by decide)⟩,
      h.pump.consumer hk, h.done, h.calls⟩
  | copy hc hb =>
    rw [hc] at hcaller
    obtain ⟨hl, hlt, ho, hp⟩ := hcaller
    obtain ⟨hpos, hle, hroom⟩ := receiveAmt_bounds ho hp hlt
    obtain ⟨hlen, r, hsamples, hr⟩ := ho
    refine ⟨h.fifo, h.blocks,
      ⟨?_, hle, ⟨hlen, r, hsamples, hr⟩, hpos, Nat.le_add_left .., hroom⟩, h.pump, h.done, h.calls⟩
    rw [List.length_append, hl, Mem.length_loadWords]
  | fault hc hb => exact absurd hb (h.samples_ne_none hc)
  | copied hc =>
    rw [hc] at hcaller
    obtain ⟨hl, hle, ho, _, _, hp⟩ := hcaller
    simp only [complete, ho.samplesLen]
    split
    · obtain ⟨_, r, _, hr⟩ := ho
      have hk := keepsWriting_readComplete h.fifo hr (h.blocks.reading h.fifo hr)
      have hdone : (s.client.buffer.receiveComplete pktSize).done = true → s.pump = .idle := by
        rw [SocketRxBuffer.receiveComplete_done]
        exact h.done
      exact ⟨hk.inv, h.blocks.readComplete h.fifo hr, ⟨hl, hle, .inl rfl⟩, h.pump.consumer hk,
        hdone, h.calls⟩
    · next hne =>
      exact ⟨h.fifo, h.blocks, ⟨hl, hle, .inr ⟨ho, Nat.lt_of_le_of_ne hp hne⟩⟩, h.pump, h.done,
        h.calls⟩

theorem PumpOk.reset {f : BlockFifo} (h : PumpOk f pc) : PumpOk f.reset pc := by
  cases pc with
  | idle => trivial
  | holding r => exact .inl ⟨rfl, rfl⟩
  | got rval => exact ⟨h.1, .inl ⟨rfl, rfl⟩⟩

/-- Every step keeps the invariant, a `Flush` as long as no packet is half handed out. -/
theorem step_inv (h : Inv s) (hf : a = .flush → s.client.partialCount = 0)
    (hs : Step s a t) : Inv t := by
  have hp := h.pump
  have hd := h.done
  have hkeep : KeepsReading s.client.buffer.fifo s.client.buffer.fifo := .refl h.fifo
  cases hs with
  | receive hc hlt =>
    have hcaller := h.caller
    rw [hc] at hcaller
    exact ⟨h.fifo, h.blocks, ⟨rfl, Nat.zero_le _, hcaller⟩, hp, hd, h.calls⟩
  | receiveStep hs => exact receiveStep_inv h hs
  | flush hc =>
    exact ⟨reset_inv h.fifo, h.blocks.reset, hc ▸ .inl (hf rfl), hp.reset, hd, h.calls⟩
  | startNone hi hn hw =>
    have hk := keepsReading_writeStart h.fifo hw
    exact ⟨hk.inv, h.blocks.writeStart h.fifo hw, h.caller.producer hk, trivial, fun _ => rfl,
      h.calls⟩
  | startSome hi hn hw =>
    have hk := keepsReading_writeStart h.fifo hw
    exact ⟨hk.inv, h.blocks.writeStart h.fifo hw, h.caller.producer hk,
      .inr (writeStart_writing h.fifo hw), fun hd' => absurd (hn.symm.trans hd') Bool.false_ne_true,
      h.calls⟩
  | again hh => exact ⟨h.fifo, h.blocks, h.caller, trivial, fun _ => rfl, h.calls⟩
  | closed hh hres =>
    exact ⟨h.fifo, h.blocks, h.caller.producer hkeep, trivial, fun _ => rfl, h.calls⟩
  | @data r n hh hm hn =>
    rw [hh] at hp hd
    have hgot : PumpOk s.client.buffer.fifo (.got (n + 1)) :=
      ⟨Nat.succ_pos n, hp.imp_right fun hr => ⟨r, hr, hm⟩⟩
    refine ⟨h.fifo, h.blocks, h.caller, hgot, fun hd' => ?_, h.calls⟩
    cases hd hd'
  | @complete rval hh =>
    rw [hh] at hp
    obtain ⟨hpos, ⟨ho, _⟩ | ⟨r, hr, hle⟩⟩ := hp
    · have hfifo : (s.client.buffer.readDataComplete rval).fifo = s.client.buffer.fifo :=
        writeComplete_outBlk_none ho rval
      have hk : KeepsReading s.client.buffer.fifo (s.client.buffer.readDataComplete rval).fifo :=
        hfifo.symm ▸ hkeep
      exact ⟨hk.inv, hfifo.symm ▸ h.blocks, h.caller.producer hk, trivial, fun _ => rfl, h.calls⟩
    · have hk := keepsReading_writeComplete h.fifo hr hle
      exact ⟨hk.inv, h.blocks.writeComplete h.fifo hr hle hpos, h.caller.producer hk, trivial,
        fun _ => rfl, h.calls⟩

theorem init_inv {b c : Nat} (hb : 0 < b) (hm : b % 0x2000 = 0) (hc : 0 < c)
    (stream : List UInt8) : Inv (init stream b c) :=
  ⟨new_inv hb hc, .new hm, .inl rfl, trivial, fun _ => rfl, nofun⟩

end RxSystem
end Avs4000
