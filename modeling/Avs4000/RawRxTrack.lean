import Avs4000.RawRxSystem

namespace Avs4000
namespace RawRxSystem
open Memory BlockFifo
set_option autoImplicit true

def bytesOf (calls : List RawReceiveCall) : List UInt8 := calls.flatMap (·.bytes)

/-- What the running call has taken out of the ring. -/
def taken : BufferReceivePc → List UInt8
  | .idle => []
  | .loop _ out => out
  | .read _ out (.copied bs amt) => out ++ bs.take (bs.length - amt)
  | .read _ out (.loop bs) | .read _ out (.copy bs _) | .read _ out (.done bs) => out ++ bs

/-- The bytes the reader has got. -/
def obtained (s : RawRxSystem) : List UInt8 := bytesOf s.calls ++ taken s.caller

/-- What holds at each point of `Receive`. -/
def CallerOk (f : BlockFifo) (m : Mem UInt8) : BufferReceivePc → Prop
  | .read fn out (.copy bs p) => bs.length < fn.len - out.length ∧ f.Reading p
  | .read _ _ (.copied bs amt) =>
    0 < amt ∧ ∃ p bs', f.Reading p ∧ amt ≤ p.maxAmt ∧ bs = bs' ++ m.load p.ptr amt
  | _ => True

/-- The pump fills the free end of the block being filled, and `late` is what it has received and
not yet completed. -/
def PumpOk (f : BlockFifo) (m : Mem UInt8) (late : List UInt8) : ReadDataPc → Prop
  | .idle => late = []
  | .holding r => late = [] ∧ f.Writing r
  | .got rval => 0 < rval ∧ ∃ r, f.Writing r ∧ rval ≤ r.maxAmt ∧ late = m.load r.ptr rval

structure Inv (s : RawRxSystem) : Prop where
  fifo : s.buffer.fifo.Inv
  blocks : NoEmpty s.buffer.fifo
  caller : CallerOk s.buffer.fifo s.mem s.caller
  queue : ∃ late, PumpOk s.buffer.fifo s.mem late s.pump ∧ s.received =
    s.obtained ++ (s.buffer.fifo.unread s.mem ++ s.buffer.fifo.filling s.mem ++ late)
  done : s.buffer.done = true → s.pump = .idle

theorem bytesOf_single (calls : List RawReceiveCall) (c : RawReceiveCall) :
    bytesOf (calls ++ [c]) = bytesOf calls ++ c.bytes := by
  rw [bytesOf, bytesOf, List.flatMap_append, List.flatMap_singleton]

theorem obtained_ret (s : RawRxSystem) (fn : ReceiveFn) (out : List UInt8) :
    (s.ret fn out).obtained = bytesOf s.calls ++ out := by
  rw [obtained, ret, bytesOf_single, taken, List.append_nil]

theorem obtained_eq {s : RawRxSystem} (h : s.caller = pc) :
    s.obtained = bytesOf s.calls ++ taken pc := by
  rw [obtained, h]

theorem CallerOk.producer {f f' : BlockFifo} (h : CallerOk f m pc) (hk : KeepsReading f f') :
    CallerOk f' m pc := by
  rcases pc with _ | _ | ⟨fn, out, _ | _ | _ | _⟩
  case read.copy => exact ⟨h.1, hk.reading _ h.2⟩
  case read.copied =>
    obtain ⟨hpos, p, bs', hp, hle, hb⟩ := h
    exact ⟨hpos, p, bs', hk.reading p hp, hle, hb⟩
  all_goals trivial

theorem CallerOk.sameContent {f : BlockFifo} (h : CallerOk f m pc) (hm : SameContent f m m') :
    CallerOk f m' pc := by
  rcases pc with _ | _ | ⟨fn, out, _ | _ | _ | _⟩
  case read.copy => exact h
  case read.copied =>
    obtain ⟨hpos, p, bs', hp, hle, hb⟩ := h
    exact ⟨hpos, p, bs', hp, hle, hm.reading p hp _ ▸ hb⟩
  all_goals trivial

theorem PumpOk.consumer {f f' : BlockFifo} (h : PumpOk f m late pc) (hk : KeepsWriting f f') :
    PumpOk f' m late pc := by
  cases pc with
  | idle => exact h
  | holding r => exact ⟨h.1, hk.writing r h.2⟩
  | got rval =>
    obtain ⟨hpos, r, hr, hle, hl⟩ := h
    exact ⟨hpos, r, hk.writing r hr, hle, hl⟩

theorem Inv.goto {s : RawRxSystem} (h : Inv s) (hc : CallerOk s.buffer.fifo s.mem pc)
    (ho : obtained { s with caller := pc, calls := calls' } = s.obtained) :
    Inv { s with caller := pc, calls := calls' } := by
  obtain ⟨late, hlate, hq⟩ := h.queue
  exact ⟨h.fifo, h.blocks, hc, ⟨late, hlate, ho ▸ hq⟩, h.done⟩

theorem receiveStep_inv {s t : RawRxSystem} (h : Inv s) (hs : ReceiveStep s t) : Inv t := by
  obtain ⟨late, hlate, hq⟩ := h.queue
  have hcaller := h.caller
  cases hs with
  | enter hc | goOn hc | full hc =>
    refine h.goto trivial ?_
    rw [obtained_eq hc, obtained]
    simp only [taken, List.append_nil]
  | finish hc => exact h.goto trivial ((obtained_ret ..).trans (obtained_eq hc).symm)
  | nothing hc =>
    refine h.goto trivial ((obtained_ret ..).trans (Eq.trans ?_ (obtained_eq hc).symm))
    rw [taken, List.append_nil]
  | look hc hlt hr =>
    have hk := keepsWriting_readStart h.fifo hr
    have hreading := (readStart_cases h.fifo hr).2.2
    refine ⟨hk.inv, h.blocks.readStart h.fifo hr, ⟨hlt, hreading⟩,
      ⟨late, hlate.consumer hk, ?_⟩, h.done⟩
    change s.received = _ ++ (BlockFifo.unread _ s.mem ++ BlockFifo.filling _ s.mem ++ late)
    rw [readStart_unread h.fifo hr, (readStart_same h.fifo hr).filling h.fifo, hq, obtained_eq hc]
    rfl
  | empty hc hlt hr =>
    obtain ⟨rfl, _⟩ := readStart_none hr
    exact h.goto trivial (obtained_eq hc).symm
  | @copy fn out bs p amt hc ha =>
    rw [hc] at hcaller
    obtain ⟨hlt, hp⟩ := hcaller
    have hpos := turnAmt_pos (Nat.sub_pos_of_lt hlt) (h.blocks.reading h.fifo hp)
    have hle := (turnAmt_le (fn.len - out.length - bs.length) p.maxAmt).2
    rw [← ha] at hpos hle
    refine h.goto ⟨hpos, p, bs, hp, hle, rfl⟩ ?_
    rw [obtained_eq hc, obtained, taken, List.length_append, Mem.length_load, Nat.add_sub_cancel,
      List.take_left, taken]
  | copied hc =>
    rw [hc] at hcaller
    obtain ⟨hpos, p, bs', hp, hle, rfl⟩ := hcaller
    have hk := keepsWriting_readComplete h.fifo hp hle
    refine ⟨hk.inv, h.blocks.readComplete h.fifo hp hle, trivial,
      ⟨late, hlate.consumer hk, ?_⟩, h.done⟩
    rw [hq, readComplete_content h.fifo hp hle, obtained_eq hc, obtained,
      (readComplete_same h.fifo hp).filling h.fifo, taken, List.length_append, Mem.length_load,
      Nat.add_sub_cancel, List.take_left, taken]
    simp only [List.append_assoc]

theorem step_inv {s t : RawRxSystem} (h : Inv s) (hs : Step s a t) : Inv t := by
  obtain ⟨late, hlate, hq⟩ := h.queue
  have hkeep : KeepsReading s.buffer.fifo s.buffer.fifo := .refl h.fifo
  cases hs with
  | receive hc hf => exact h.goto trivial (obtained_eq hc).symm
  | receiveStep hs => exact receiveStep_inv h hs
  | startNone hp hd hw =>
    obtain ⟨rfl, _⟩ := writeStart_none hw
    rw [hp] at hlate
    exact ⟨h.fifo, h.blocks, h.caller, ⟨late, hlate, hq⟩, fun _ => rfl⟩
  | startSome hp hd hw =>
    have hk := keepsReading_writeStart h.fifo hw
    rw [hp] at hlate
    refine ⟨hk.inv, h.blocks.writeStart h.fifo hw, h.caller.producer hk,
      ⟨late, ⟨hlate, writeStart_writing h.fifo hw⟩, ?_⟩, fun hd' => ?_⟩
    · change s.received = _ ++ (BlockFifo.unread _ s.mem ++ BlockFifo.filling _ s.mem ++ late)
      rw [(writeStart_same h.fifo hw).unread, writeStart_filling h.fifo hw]
      exact hq
    · cases hd.symm.trans hd'
  | again hp =>
    rw [hp] at hlate
    exact ⟨h.fifo, h.blocks, h.caller, ⟨late, hlate.1, hq⟩, fun _ => rfl⟩
  | closed hp hres =>
    rw [hp] at hlate
    exact ⟨h.fifo, h.blocks, h.caller.producer hkeep, ⟨late, hlate.1, hq⟩, fun _ => rfl⟩
  | @data r n hp hm hn =>
    rw [hp] at hlate
    obtain ⟨rfl, hw⟩ := hlate
    have hlen : (s.incoming.take (n + 1)).length = n + 1 := List.length_take_of_le hn
    have hroom : 0 + (s.incoming.take (n + 1)).length ≤ r.maxAmt := by rwa [Nat.zero_add, hlen]
    have hsame := sameContent_store h.fifo hw hroom s.mem
    have hload := Mem.load_store s.mem r.ptr (s.incoming.take (n + 1))
    rw [Addr.add_zero] at hsame
    rw [hlen] at hload
    refine ⟨h.fifo, h.blocks, h.caller.sameContent hsame,
      ⟨_, ⟨Nat.succ_pos n, r, hw, hm, hload.symm⟩, ?_⟩, fun hd => ?_⟩
    · change _ = s.obtained ++ _
      rw [hsame.unread, hsame.filling, hq]
      simp only [List.append_assoc, List.append_nil]
    · cases hp.symm.trans (h.done hd)
  | complete hp =>
    rw [hp] at hlate
    obtain ⟨hpos, r, hw, hle, rfl⟩ := hlate
    have hk := keepsReading_writeComplete h.fifo hw hle
    refine ⟨hk.inv, h.blocks.writeComplete h.fifo hw hle (Nat.add_pos_right _ hpos),
      h.caller.producer hk, ⟨[], rfl, ?_⟩, fun _ => rfl⟩
    change s.received = s.obtained ++ ((s.buffer.fifo.writeComplete _).unread s.mem ++
      (s.buffer.fifo.writeComplete _).filling s.mem ++ [])
    rw [writeComplete_content h.fifo hw hle, hq, List.append_nil]

theorem init_inv {b c : Nat} (hb : 0 < b) (hc : 0 < c) (stream : List UInt8) :
    Inv (init stream b c) where
  fifo := new_inv hb hc
  blocks := .new b c
  caller := trivial
  queue := ⟨[], rfl, rfl⟩
  done _ := rfl

end RawRxSystem
end Avs4000
