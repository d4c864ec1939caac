import Avs4000.BlockFifoBulk
import Avs4000.TxPump

namespace Avs4000
open Memory BlockFifo
set_option autoImplicit true

/-- Where the calling thread stands in `Send` of a `SocketTxBuffer`. -/
inductive BufferSendPc
  | idle
  | loop (data : List UInt8) (queued : Nat)
  | write (data : List UInt8) (queued : Nat) (pc : WritePc)

/-- A client with `useV49` clear: its buffer, the caller of `Send` and the pump. `wire` and `sends`
are as in `TxSystem`. -/
structure RawTxSystem where
  buffer : SocketTxBuffer
  mem : Mem UInt8
  caller : BufferSendPc
  pump : WriteDataPc
  wire : List UInt8
  sends : List (List UInt8 × Nat)

namespace RawTxSystem

def init (blkSize blkCount : Nat) : RawTxSystem where
  buffer := .new blkSize blkCount
  mem _ := 0
  caller := .idle
  pump := .idle
  wire := []
  sends := []

/-- `Send` returns. -/
def ret (s : RawTxSystem) (data : List UInt8) (queued : Nat) : RawTxSystem :=
  { s with
    buffer.transferred := s.buffer.transferred + UInt64.ofNat queued
    caller := .idle, sends := s.sends ++ [(data, queued)] }

/-- The next step of `Send`. -/
def sendStep (s : RawTxSystem) : Option RawTxSystem :=
  match s.caller with
  | .idle => none
  | .loop data queued => some <|
    if !s.buffer.done ∧ queued < data.length then { s with caller := .write data queued (.loop 0) }
    else s.ret data queued
  | .write data queued (.done rval) => some <|
    if rval = 0 then s.ret data queued else { s with caller := .loop data (queued + rval) }
  | .write data queued pc =>
    let (fifo, mem, pc) := s.buffer.fifo.writeStep (data.drop queued) s.mem pc
    some { s with buffer.fifo := fifo, mem := mem, caller := .write data queued pc }

inductive Act
  | send (data : List UInt8)
  | sendStep
  | flush
  | writeDataStart
  | sent (res : SendResult)
  | writeDataComplete

/-- A call is made when no other is running, and the pump stops once `done` is set. `ReadStart` is
one step here, and `TxLocks` takes it apart. -/
def step (s : RawTxSystem) : Act → Option RawTxSystem
  | .send data =>
    match s.caller with
    | .idle =>
      if 0 < data.length ∧ data.length < 2 ^ 32 then some { s with caller := .loop data 0 }
      else none
    | _ => none
  | .sendStep => s.sendStep
  | .flush =>
    match s.caller with
    | .idle => some { s with buffer := s.buffer.reset }
    | _ => none
  | .writeDataStart =>
    match s.pump with
    | .idle =>
      if s.buffer.done then none
      else
        let (buffer, pump) := s.buffer.writeDataStart
        some { s with buffer := buffer, pump := pump }
    | _ => none
  | .sent res =>
    match s.pump with
    | .holding r =>
      let (buffer, pump) := s.buffer.writeDataSent res
      match res with
      | .accepted n =>
        if n ≤ r.maxAmt then
          some { s with buffer := buffer, pump := pump, wire := s.wire ++ s.mem.load r.ptr n }
        else none
      | _ => some { s with buffer := buffer, pump := pump }
    | _ => none
  | .writeDataComplete =>
    match s.pump with
    | .sent rval => some { s with buffer := s.buffer.writeDataComplete rval, pump := .idle }
    | _ => none

end RawTxSystem

namespace BlockFifo

/-- What holds at each point of `Write` for `len` bytes. -/
def WriteOk (f : BlockFifo) (len : Nat) : WritePc → Prop
  | .loop _ | .done _ => True
  | .copy written p => written < len ∧ f.Writing p
  | .copied _ amt => 0 < amt ∧ ∃ p, f.Writing p ∧ amt ≤ p.maxAmt

theorem WriteOk.consumer {f : BlockFifo} (h : f.WriteOk len pc) (hk : KeepsWriting f f') :
    f'.WriteOk len pc := by
  cases pc with
  | loop | done => trivial
  | copy => exact ⟨h.1, hk.writing _ h.2⟩
  | copied =>
    obtain ⟨hpos, p, hp, hle⟩ := h
    exact ⟨hpos, p, hk.writing p hp, hle⟩

/-- What a step of `Write` does, one case for each way it can go. -/
inductive WriteStep (buf : List UInt8) (f : BlockFifo) (m : Mem UInt8) :
    WritePc → BlockFifo × Mem UInt8 × WritePc → Prop
  | room (hlt : written < buf.length) (hw : f.writeStart = (f', some p)) :
    WriteStep buf f m (.loop written) (f', m, .copy written p)
  | full (hw : f.writeStart = (f', none)) :
    WriteStep buf f m (.loop written) (f', m, .done written)
  | finish : WriteStep buf f m (.loop written) (f, m, .done written)
  | copy (ha : amt = turnAmt (buf.length - written) p.maxAmt) :
    WriteStep buf f m (.copy written p)
      (f, m.store p.ptr ((buf.drop written).take amt), .copied written amt)
  | copied : WriteStep buf f m (.copied written amt) (f.writeComplete amt, m, .loop (written + amt))
  | done : WriteStep buf f m (.done written) (f, m, .done written)

theorem writeStep_cases {f : BlockFifo} (hs : f.writeStep buf m pc = r) :
    WriteStep buf f m pc r := by
  subst hs
  cases pc with
  | loop written =>
    rw [writeStep]
    split
    · next hlt =>
      rcases hw : f.writeStart with ⟨f', p⟩
      cases p with
      | none => exact .full hw
      | some p => exact .room hlt hw
    · exact .finish
  | copy written p => exact .copy rfl
  | copied written amt => exact .copied
  | done written => exact .done

theorem writeStep_keeps {f : BlockFifo} (h : Inv f) (hn : NoEmpty f) {buf : List UInt8}
    (hw : f.WriteOk buf.length pc) (hs : f.writeStep buf m pc = (f', m', pc')) :
    KeepsReading f f' ∧ NoEmpty f' ∧ f'.WriteOk buf.length pc' := by
  cases writeStep_cases hs with
  | room hlt hstart =>
    exact ⟨keepsReading_writeStart h hstart, hn.writeStart h hstart, hlt,
      writeStart_writing h hstart⟩
  | full hstart => exact ⟨keepsReading_writeStart h hstart, hn.writeStart h hstart, trivial⟩
  | finish | done => exact ⟨.refl h, hn, trivial⟩
  | @copy amt written p ha =>
    obtain ⟨hlt, hp⟩ := hw
    have hpos := turnAmt_pos (Nat.sub_pos_of_lt hlt) (hp.maxAmt_pos h)
    have hle := (turnAmt_le (buf.length - written) p.maxAmt).2
    rw [← ha] at hpos hle
    exact ⟨.refl h, hn, hpos, p, hp, hle⟩
  | copied =>
    obtain ⟨hpos, p, hp, hle⟩ := hw
    exact ⟨keepsReading_writeComplete h hp hle,
      hn.writeComplete h hp hle (Nat.add_pos_right _ hpos), trivial⟩

end BlockFifo

namespace RawTxSystem

/-- What the steps of `Send` do, one case for each way they can go. -/
inductive SendStep (s : RawTxSystem) : RawTxSystem → Prop
  | finish (data : List UInt8) (queued : Nat) : SendStep s (s.ret data queued)
  | enter (hc : s.caller = .loop data queued) :
    SendStep s { s with caller := .write data queued (.loop 0) }
  | goOn (hc : s.caller = .write data queued (.done rval)) :
    SendStep s { s with caller := .loop data (queued + rval) }
  | write (hc : s.caller = .write data queued pc)
    (hw : s.buffer.fifo.writeStep (data.drop queued) s.mem pc = (f', m', pc')) :
    SendStep s { s with buffer.fifo := f', mem := m', caller := .write data queued pc' }

/-- What the steps do, one case for each way they can go. -/
inductive Step (s : RawTxSystem) : Act → RawTxSystem → Prop
  | send (data : List UInt8) (hc : s.caller = .idle) :
    Step s (.send data) { s with caller := .loop data 0 }
  | sendStep (h : SendStep s t) : Step s .sendStep t
  | flush (hc : s.caller = .idle) : Step s .flush { s with buffer := s.buffer.reset }
  | startNone (hr : s.buffer.fifo.readStart = (f', none)) :
    Step s .writeDataStart { s with buffer.fifo := f', pump := .idle }
  | startSome (hr : s.buffer.fifo.readStart = (f', some r)) :
    Step s .writeDataStart { s with buffer.fifo := f', pump := .holding r }
  | again : Step s (.sent .again) { s with pump := .idle }
  | closed (hres : res = .error ∨ res = .accepted 0) :
    Step s (.sent res) { s with buffer.done := true, pump := .idle }
  | accepted (hp : s.pump = .holding r) (hn : n + 1 ≤ r.maxAmt) :
    Step s (.sent (.accepted (n + 1))) { s with
      pump := .sent (n + 1), wire := s.wire ++ s.mem.load r.ptr (n + 1) }
  | complete (hp : s.pump = .sent rval) : Step s .writeDataComplete { s with
      buffer := s.buffer.writeDataComplete rval, pump := .idle }

theorem sendStep_cases {s t : RawTxSystem} (h : s.sendStep = some t) : SendStep s t := by
  cases hc : s.caller with
  | idle =>
    simp only [sendStep, hc] at h
    cases h
  | loop data queued =>
    simp only [sendStep, hc, Option.some.injEq] at h
    subst h
    split
    · exact .enter hc
    · exact .finish data queued
  | write data queued pc =>
    cases pc with
    | done rval =>
      simp only [sendStep, hc, Option.some.injEq] at h
      subst h
      split
      · exact .finish data queued
      · exact .goOn hc
    | loop | copy | copied =>
      simp only [sendStep, hc, Option.some.injEq] at h
      exact h ▸ .write hc rfl

theorem step_cases {s t : RawTxSystem} (h : s.step a = some t) : Step s a t := by
  cases a with
  | send data =>
    simp only [step] at h
    split at h
    · next hc =>
      split at h
      · cases h
        exact .send data hc
      · cases h
    · cases h
  | sendStep => exact .sendStep (sendStep_cases h)
  | flush =>
    simp only [step] at h
    split at h
    · next hc =>
      cases h
      exact .flush hc
    · cases h
  | writeDataStart =>
    simp only [step] at h
    split at h
    · split at h
      · cases h
      · rcases hr : s.buffer.fifo.readStart with ⟨f', buf⟩
        cases buf with
        | none =>
          simp only [SocketTxBuffer.writeDataStart, hr, Option.some.injEq] at h
          exact h ▸ .startNone hr
        | some r =>
          simp only [SocketTxBuffer.writeDataStart, hr, Option.some.injEq] at h
          exact h ▸ .startSome hr
    · cases h
  | sent res =>
    simp only [step] at h
    split at h
    · next r hp =>
      rcases res with _ | _ | k
      · cases h
        exact .again
      · cases h
        exact .closed (.inl rfl)
      · dsimp only at h
        split at h
        · next hk =>
          cases h
          cases k with
          | zero =>
            rw [Mem.load_zero, List.append_nil]
            exact .closed (.inr rfl)
          | succ n => exact .accepted hp hk
        · cases h
    · cases h
  | writeDataComplete =>
    simp only [step] at h
    split at h
    · next rval hp =>
      cases h
      exact .complete hp
    · cases h

/-- What holds at each point of `Send`. -/
def CallerOk (f : BlockFifo) : BufferSendPc → Prop
  | .idle | .loop .. => True
  | .write data queued pc => f.WriteOk (data.drop queued).length pc

/-- What the pump is given to send is never empty. -/
structure Inv (s : RawTxSystem) : Prop where
  fifo : s.buffer.fifo.Inv
  blocks : NoEmpty s.buffer.fifo
  caller : CallerOk s.buffer.fifo s.caller
  pump : TxSystem.PumpOk s.buffer.fifo s.pump
  holding : ∀ r, s.pump = .holding r → 0 < r.maxAmt

theorem CallerOk.consumer {f : BlockFifo} (h : CallerOk f pc) (hk : KeepsWriting f f') :
    CallerOk f' pc := by
  cases pc with
  | idle | loop => trivial
  | write => exact WriteOk.consumer h hk

theorem sendStep_keeps {s t : RawTxSystem} (h : Inv s) (hs : SendStep s t) :
    KeepsReading s.buffer.fifo t.buffer.fifo ∧ t.pump = s.pump := by
  have hcaller := h.caller
  cases hs with
  | finish | enter | goOn => exact ⟨.refl h.fifo, rfl⟩
  | write hc hw =>
    rw [hc] at hcaller
    exact ⟨(writeStep_keeps h.fifo h.blocks hcaller hw).1, rfl⟩

theorem sendStep_inv {s t : RawTxSystem} (h : Inv s) (hs : SendStep s t) : Inv t := by
  have hcaller := h.caller
  cases hs with
  | finish | enter | goOn => exact ⟨h.fifo, h.blocks, trivial, h.pump, h.holding⟩
  | write hc hw =>
    rw [hc] at hcaller
    obtain ⟨hk, hn, hw⟩ := writeStep_keeps h.fifo h.blocks hcaller hw
    exact ⟨hk.inv, hn, hw, h.pump.producer hk, h.holding⟩

/-- The pump has a region to send from. -/
def hand (s : RawTxSystem) (f : BlockFifo) (r : Region) : RawTxSystem :=
  { s with buffer.fifo := f, pump := .holding r }

theorem Inv.hand {s : RawTxSystem} (h : Inv s) (hr : s.buffer.fifo.readStart = (f', some r)) :
    Inv (s.hand f' r) := by
  have hk := keepsWriting_readStart h.fifo hr
  have hblocks := h.blocks.readStart h.fifo hr
  have hreading := (readStart_cases h.fifo hr).2.2
  refine ⟨hk.inv, hblocks, h.caller.consumer hk, .inr hreading, fun q hq => ?_⟩
  cases hq
  exact hblocks.reading hk.inv hreading

theorem step_inv {s t : RawTxSystem} (h : Inv s) (hs : Step s a t) : Inv t := by
  have hp := h.pump
  have hidle : ∀ r, WriteDataPc.idle = .holding r → 0 < r.maxAmt := by
    intro r hr
    cases hr
  cases hs with
  | send data hc => exact ⟨h.fifo, h.blocks, trivial, hp, h.holding⟩
  | sendStep hs => exact sendStep_inv h hs
  | flush hc => exact ⟨reset_inv h.fifo, .reset _, hc ▸ trivial, hp.reset, h.holding⟩
  | startNone hr =>
    have hk := keepsWriting_readStart h.fifo hr
    exact ⟨hk.inv, h.blocks.readStart h.fifo hr, h.caller.consumer hk, trivial, hidle⟩
  | startSome hr => exact h.hand hr
  | again => exact ⟨h.fifo, h.blocks, h.caller, trivial, hidle⟩
  | closed => exact ⟨h.fifo, h.blocks, h.caller, trivial, hidle⟩
  | accepted hh hn =>
    rw [hh] at hp
    refine ⟨h.fifo, h.blocks, h.caller, hp.imp_right fun hr => ⟨_, hr, hn⟩, ?_⟩
    intro r hr
    cases hr
  | complete hh =>
    rw [hh] at hp
    have hk := hp.keepsWriting h.fifo
    exact ⟨hk.inv, hp.noEmpty h.fifo h.blocks, h.caller.consumer hk, trivial, hidle⟩

theorem init_inv {b c : Nat} (hb : 0 < b) (hc : 0 < c) : Inv (init b c) where
  fifo := new_inv hb hc
  blocks := .new b c
  caller := trivial
  pump := trivial
  holding := nofun

theorem step_done {s t : RawTxSystem} (hs : Step s a t) (hd : t.buffer.done = true) :
    s.buffer.done = true ∨ a = .sent .error ∨ a = .sent (.accepted 0) := by
  cases hs with
  | sendStep hs =>
    left
    cases hs with
    | finish | enter | goOn | write => exact hd
  | closed hres => exact .inr (hres.imp (congrArg Act.sent) (congrArg Act.sent))
  | send | flush | startNone | startSome | again | accepted | complete => exact .inl hd

end RawTxSystem
end Avs4000
