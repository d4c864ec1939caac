import Avs4000.BlockFifoNoEmpty
import Avs4000.BlockFifoRepresentation
import Avs4000.TxInvariant

namespace Avs4000
namespace TxSystem
open Memory BlockFifo
open TcpTxSignalClient (pktSize complete)
set_option autoImplicit true

/-- `Send` is about to close the block being filled early. -/
def Forcing : SendPc → Prop
  | .forced .. => True
  | _ => False

/-- What the pump is given to send is never empty. -/
structure Sends (s : TxSystem) : Prop where
  blkSize : pktSize ≤ s.client.buffer.fifo.blkSize
  blocks : NoEmpty s.client.buffer.fifo
  forced : Forcing s.caller → Started s.client.buffer.fifo
  pump : ∀ r, s.pump = .holding r → 0 < r.maxAmt

theorem PumpOk.sameFill (hp : PumpOk f (.sent rval)) (h : f.Inv) :
    SameFill f (f.readComplete rval) := by
  rcases hp with hn | ⟨r, hr, _⟩
  · rw [readComplete_inBlk_none hn]
    exact .refl f
  · exact readComplete_same h hr

theorem PumpOk.noEmpty (hp : PumpOk f (.sent rval)) (h : f.Inv) (hb : NoEmpty f) :
    NoEmpty (f.readComplete rval) := by
  rcases hp with hn | ⟨r, hr, hle⟩
  · rw [readComplete_inBlk_none hn]
    exact hb
  · exact hb.readComplete h hr hle

theorem sendStep_sends (hi : Inv s) (h : Sends s) (hs : SendStep s t) : Sends t := by
  have hcaller := hi.caller
  cases hs with
  | enter | goOn | timeout | finish | attach | fill | fault =>
    exact ⟨h.blkSize, h.blocks, False.elim, h.pump⟩
  | short hc hw hm hb =>
    refine ⟨(writeStart_blkSize hi.fifo hw).symm ▸ h.blkSize, h.blocks.writeStart hi.fifo hw,
      fun _ => started_of_short hi.fifo hw fun r hr => ?_, h.pump⟩
    exact Nat.lt_of_lt_of_le ((hb r hr).trans_lt hm) h.blkSize
  | noRoom hc hw | room hc hw =>
    exact ⟨(writeStart_blkSize hi.fifo hw).symm ▸ h.blkSize, h.blocks.writeStart hi.fifo hw,
      False.elim, h.pump⟩
  | force hc =>
    have hstart := h.forced (hc ▸ trivial)
    have hsize := (writeComplete_tail s.client.buffer.fifo 0).2.2.1
    exact ⟨hsize.symm ▸ h.blkSize, h.blocks.force hi.fifo hstart, False.elim, h.pump⟩
  | filled hc =>
    rw [hc] at hcaller
    obtain ⟨_, ⟨_, r, _, hr, hm⟩, _⟩ := hcaller
    rw [complete]
    split
    · have hsize := (writeComplete_tail s.client.buffer.fifo pktSize).2.2.1
      have hpos : 0 < (s.client.buffer.fifo.blk s.client.buffer.fifo.head).len + pktSize :=
        Nat.add_pos_right _ (by decide)
      exact ⟨hsize.symm ▸ h.blkSize, h.blocks.writeComplete hi.fifo hr hm hpos,
        False.elim, h.pump⟩
    · exact ⟨h.blkSize, h.blocks, False.elim, h.pump⟩

theorem Sends.hand (h : Sends s) (hi : s.client.buffer.fifo.Inv)
    (hr : s.client.buffer.fifo.readStart = (f', some r)) : Sends (s.hand f' r) := by
  have hsame := readStart_same hi hr
  have hblocks := h.blocks.readStart hi hr
  refine ⟨hsame.blkSize.symm ▸ h.blkSize, hblocks,
    fun hf => (h.forced hf).consumer hi hsame, ?_⟩
  intro q hq
  cases hq
  exact hblocks.reading (readStart_inv hi hr) (readStart_cases hi hr).2.2

theorem step_sends (hi : Inv s) (h : Sends s) (hs : Step s a t) : Sends t := by
  have hfifo := hi.fifo
  cases hs with
  | send hc hpos hlt => exact ⟨h.blkSize, h.blocks, False.elim, h.pump⟩
  | sendStep junk hs => exact sendStep_sends hi h hs
  | flush hc =>
    exact ⟨h.blkSize, .reset _, fun hf => (show Forcing .idle from hc ▸ hf).elim, h.pump⟩
  | startNone hp hd hr =>
    obtain ⟨rfl, _⟩ := readStart_none hr
    refine ⟨h.blkSize, h.blocks, h.forced, ?_⟩
    intro r hr
    cases hr
  | startSome hp hd hr => exact h.hand hfifo hr
  | again | closed | accepted =>
    refine ⟨h.blkSize, h.blocks, h.forced, ?_⟩
    intro r hr
    cases hr
  | complete hp =>
    have hpump := hi.pump
    rw [hp] at hpump
    have hsame := hpump.sameFill hfifo
    refine ⟨hsame.blkSize.symm ▸ h.blkSize, hpump.noEmpty hfifo h.blocks,
      fun hf => (h.forced hf).consumer hfifo hsame, ?_⟩
    intro r hr
    cases hr

theorem init_sends {b : Nat} (dn : UInt8) (hb : pktSize ≤ b) (c : Nat) : Sends (init dn b c) where
  blkSize := hb
  blocks := .new b c
  forced := False.elim
  pump := nofun

theorem step_done (hs : Step s a t) (hd : t.client.buffer.done = true) :
    s.client.buffer.done = true ∨ a = .sent .error ∨ a = .sent (.accepted 0) := by
  cases hs with
  | sendStep junk hs =>
    left
    cases hs with
    | filled hc =>
      change s.client.complete.buffer.done = true at hd
      rw [complete] at hd
      split at hd
      · exact (SocketTxBuffer.sendComplete_done ..).symm.trans hd
      · exact hd
    | enter | timeout | goOn | finish | short | noRoom | room | force | attach | fill | fault =>
      exact hd
  | closed hp hres => exact .inr (hres.imp (congrArg Act.sent) (congrArg Act.sent))
  | send | flush | startNone | startSome | again | accepted | complete => exact .inl hd

end TxSystem
end Avs4000
