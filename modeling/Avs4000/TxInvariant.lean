import Avs4000.BlockFifoRegions
import Avs4000.TxSteps
import Avs4000.V49Agreement

namespace Avs4000
namespace TxSystem
open Memory BlockFifo
open TcpTxSignalClient (pktSize slen sendAmt complete)
set_option autoImplicit true

/-- The packet being filled lies at the free end of the block being filled. -/
structure OpenPacket (c : TcpTxSignalClient) : Prop where
  samplesLen : c.packet.samplesLen = 2040
  place : ∃ r, c.packet.buffer = some r.ptr ∧ c.buffer.fifo.Writing r ∧ pktSize ≤ r.maxAmt

/-- What holds at each point of `Send`. -/
def CallerOk (c : TcpTxSignalClient) : SendPc → Prop
  | .idle => c.plen = 0 ∨ OpenPacket c ∧ c.plen < 8160
  | .loop data sent => sent ≤ data.length ∧ (c.plen = 0 ∨ OpenPacket c ∧ c.plen < 8160)
  | .ready data sent | .forced data sent _ | .restart data sent _ =>
    sent < data.length ∧ c.plen = 0
  | .attach data sent buf =>
    sent < data.length ∧ c.plen = 0 ∧
      ∃ r, buf = r.ptr ∧ c.buffer.fifo.Writing r ∧ pktSize ≤ r.maxAmt
  | .fill data sent => sent < data.length ∧ OpenPacket c ∧ c.plen < 8160
  | .filled data sent amt =>
    sent + amt ≤ data.length ∧ OpenPacket c ∧ 0 < amt ∧ amt ≤ c.plen ∧ c.plen ≤ 8160
  | .fault => False

/-- A packet is attached and not yet completed. -/
def Attached (c : TcpTxSignalClient) : SendPc → Prop
  | .fill .. | .filled .. => True
  | _ => c.plen ≠ 0

/-- The pump holds the region the ring would hand out again, unless a `Flush` came in between. -/
def PumpOk (f : BlockFifo) : WriteDataPc → Prop
  | .idle => True
  | .holding r => f.inBlk = none ∨ f.Reading r
  | .sent rval => f.inBlk = none ∨ ∃ r, f.Reading r ∧ rval ≤ r.maxAmt

structure Inv (s : TxSystem) : Prop where
  fifo : s.client.buffer.fifo.Inv
  caller : CallerOk s.client s.caller
  pump : PumpOk s.client.buffer.fifo s.pump

theorem PumpOk.producer (h : PumpOk f pc) (hk : KeepsReading f f') : PumpOk f' pc := by
  cases pc with
  | idle => trivial
  | holding r => exact h.imp (hk.inBlk.trans ·) (hk.reading r)
  | sent rval => exact h.imp (hk.inBlk.trans ·) fun ⟨r, hr, hn⟩ => ⟨r, hk.reading r hr, hn⟩

theorem OpenPacket.consumer {c : TcpTxSignalClient} {b : SocketTxBuffer} (h : OpenPacket c)
    (hw : ∀ r, c.buffer.fifo.Writing r → b.fifo.Writing r) :
    OpenPacket { c with buffer := b } := by
  obtain ⟨hl, r, hb, hr, hm⟩ := h
  exact ⟨hl, r, hb, hw r hr, hm⟩

theorem CallerOk.consumer {c : TcpTxSignalClient} {b : SocketTxBuffer} (h : CallerOk c pc)
    (hw : ∀ r, c.buffer.fifo.Writing r → b.fifo.Writing r) :
    CallerOk { c with buffer := b } pc := by
  cases pc with
  | idle => exact h.imp_right fun ⟨ho, hp⟩ => ⟨ho.consumer hw, hp⟩
  | loop data sent => exact ⟨h.1, h.2.imp_right fun ⟨ho, hp⟩ => ⟨ho.consumer hw, hp⟩⟩
  | ready | forced | restart => exact h
  | attach data sent buf =>
    obtain ⟨hs, hp, r, hb, hr, hm⟩ := h
    exact ⟨hs, hp, r, hb, hw r hr, hm⟩
  | fill data sent => exact ⟨h.1, h.2.1.consumer hw, h.2.2⟩
  | filled data sent amt => exact ⟨h.1, h.2.1.consumer hw, h.2.2⟩
  | fault => exact h

theorem slen_eq {c : TcpTxSignalClient} (h : OpenPacket c) : c.slen = 8160 := by
  rw [slen, h.samplesLen]

theorem sendAmt_bounds {c : TcpTxSignalClient} (h : OpenPacket c) (hp : c.plen < 8160)
    {data : List UInt8} (hs : sent < data.length) :
    0 < c.sendAmt data sent ∧ c.sendAmt data sent ≤ data.length - sent ∧
      c.plen + c.sendAmt data sent ≤ 8160 := by
  rw [sendAmt, slen_eq h]
  split <;> omega

theorem CallerOk.starts {c : TcpTxSignalClient} {x : SendPc} (h : CallerOk c x)
    (hx : x.Starts data sent) : sent < data.length ∧ c.plen = 0 := by
  rcases hx with rfl | ⟨_, rfl⟩
  · exact h
  · exact h

theorem Inv.sampleBuffer_ne_none (h : Inv s) (hc : s.caller = .fill data sent) :
    s.client.packet.sampleBuffer ≠ none := by
  have hcaller := h.caller
  rw [hc] at hcaller
  obtain ⟨_, ⟨_, r, hb, _⟩, _⟩ := hcaller
  rw [V49Packet.sampleBuffer, hb]
  exact Option.some_ne_none _

theorem sendStep_keeps (h : Inv s) (hs : SendStep s t) :
    KeepsReading s.client.buffer.fifo t.client.buffer.fifo ∧ t.pump = s.pump := by
  have hcaller := h.caller
  cases hs with
  | enter | timeout | goOn | finish | attach | fill | fault => exact ⟨.refl h.fifo, rfl⟩
  | short _ hw | noRoom _ hw | room _ hw => exact ⟨keepsReading_writeStart h.fifo hw, rfl⟩
  | force => exact ⟨keepsReading_force h.fifo, rfl⟩
  | filled hc =>
    rw [hc] at hcaller
    obtain ⟨_, ⟨_, r, _, hr, hm⟩, _⟩ := hcaller
    refine ⟨?_, rfl⟩
    dsimp only
    rw [complete]
    split
    · exact keepsReading_writeComplete h.fifo hr hm
    · exact .refl h.fifo

theorem sendStep_caller (h : Inv s) (hs : SendStep s t) : CallerOk t.client t.caller := by
  have hcaller := h.caller
  cases hs with
  | enter hc hlt hz hf => exact ⟨hlt, hz⟩
  | timeout hc hlt hz hf => exact .inl hz
  | goOn hc hlt hz =>
    rw [hc] at hcaller
    exact ⟨hlt, hcaller.2.resolve_left hz⟩
  | finish hc hge =>
    rw [hc] at hcaller
    exact hcaller.2
  | short hc hw hm hb =>
    rw [hc] at hcaller
    exact hcaller
  | noRoom hc hw => exact .inl (hcaller.starts hc).2
  | room hc hw hm =>
    obtain ⟨hlt, hz⟩ := hcaller.starts hc
    exact ⟨hlt, hz, _, rfl, writeStart_writing h.fifo hw, hm⟩
  | force hc =>
    rw [hc] at hcaller
    exact hcaller
  | attach hc =>
    rw [hc] at hcaller
    obtain ⟨hle, hp, r, rfl, hr, hm⟩ := hcaller
    exact ⟨hle, ⟨V49Packet.samplesFor_packet, r, rfl, hr, hm⟩, hp ▸ (by decide)⟩
  | fill hc hb =>
    rw [hc] at hcaller
    obtain ⟨hle, ho, hp⟩ := hcaller
    obtain ⟨hpos, hdata, hroom⟩ := sendAmt_bounds ho hp hle
    obtain ⟨hl, r, hb, hr, hm⟩ := ho
    exact ⟨by omega, ⟨hl, r, hb, hr, hm⟩, hpos, Nat.le_add_left .., hroom⟩
  | fault hc hb => exact absurd hb (h.sampleBuffer_ne_none hc)
  | filled hc =>
    rw [hc] at hcaller
    obtain ⟨hle, ho, _, _, hp⟩ := hcaller
    simp only [complete, slen_eq ho]
    split
    · exact ⟨hle, .inl rfl⟩
    · next hne => exact ⟨hle, .inr ⟨ho, Nat.lt_of_le_of_ne hp hne⟩⟩

theorem sendStep_inv (h : Inv s) (hs : SendStep s t) : Inv t := by
  obtain ⟨hk, hp⟩ := sendStep_keeps h hs
  exact ⟨hk.inv, sendStep_caller h hs, hp ▸ h.pump.producer hk⟩

theorem PumpOk.keepsWriting (hp : PumpOk f (.sent rval)) (h : f.Inv) :
    KeepsWriting f (f.readComplete rval) := by
  rcases hp with hn | ⟨r, hr, hle⟩
  · rw [readComplete_inBlk_none hn]
    exact .refl h
  · exact keepsWriting_readComplete h hr hle

theorem PumpOk.reset {f : BlockFifo} (h : PumpOk f pc) : PumpOk f.reset pc := by
  cases pc with
  | idle => trivial
  | holding r => exact .inl rfl
  | sent rval => exact .inl rfl

/-- The pump has a region to send from. -/
def hand (s : TxSystem) (f : BlockFifo) (r : Region) : TxSystem :=
  { s with client.buffer.fifo := f, pump := .holding r }

theorem Inv.hand (h : Inv s) (hr : s.client.buffer.fifo.readStart = (f', some r)) :
    Inv (s.hand f' r) := by
  have hk := keepsWriting_readStart h.fifo hr
  exact ⟨hk.inv, h.caller.consumer hk.writing, .inr (readStart_cases h.fifo hr).2.2⟩

theorem step_inv (h : Inv s) (hs : Step s a t) : Inv t := by
  have hp := h.pump
  cases hs with
  | send hc hpos hlt =>
    have hcaller := h.caller
    rw [hc] at hcaller
    exact ⟨h.fifo, ⟨Nat.zero_le _, hcaller⟩, hp⟩
  | sendStep junk hs => exact sendStep_inv h hs
  | flush hc => exact ⟨reset_inv h.fifo, hc ▸ .inl rfl, hp.reset⟩
  | startNone hi hd hr =>
    have hk := keepsWriting_readStart h.fifo hr
    exact ⟨hk.inv, h.caller.consumer hk.writing, trivial⟩
  | startSome hi hd hr => exact h.hand hr
  | again hh => exact ⟨h.fifo, h.caller, trivial⟩
  | closed hh hres => exact ⟨h.fifo, h.caller.consumer fun _ hw => hw, trivial⟩
  | accepted hh hn =>
    rw [hh] at hp
    exact ⟨h.fifo, h.caller, hp.imp_right fun hr => ⟨_, hr, hn⟩⟩
  | complete hh =>
    rw [hh] at hp
    have hk := hp.keepsWriting h.fifo
    exact ⟨hk.inv, h.caller.consumer hk.writing, trivial⟩

theorem init_inv {b c : Nat} (hb : 0 < b) (hc : 0 < c) : Inv (init dn b c) :=
  ⟨new_inv hb hc, .inl rfl, trivial⟩

end TxSystem
end Avs4000
