import Avs4000.TxLocks

namespace Avs4000
open Memory BlockFifo
set_option autoImplicit true

def WritePc.written : WritePc → Nat
  | .loop written | .copy written _ | .copied written _ | .done written => written

/-- What a running `Send` has put into the ring and not counted yet. -/
def BufferSendPc.queued : BufferSendPc → List UInt8
  | .idle => []
  | .loop data queued => data.take queued
  | .write data queued pc => data.take (queued + pc.written)

/-- What the socket has taken and `Sent` does not count yet. -/
def WriteDataPc.inFlight : WriteDataPc → Nat
  | .sent rval => rval
  | _ => 0

/-- What of it the ring still has, as a rule all of it. -/
def WriteDataPc.unread (f : BlockFifo) (pc : WriteDataPc) : Nat :=
  if f.inBlk = none then 0 else pc.inFlight

/-- What of it a `Reset` has taken out of the ring. -/
def WriteDataPc.overtaken (f : BlockFifo) (pc : WriteDataPc) : Nat :=
  if f.inBlk = none then pc.inFlight else 0

namespace BlockFifo

/-- The unread bytes, and after them those of the block being filled. -/
def stored (f : BlockFifo) (m : Mem UInt8) : List UInt8 := f.unread m ++ f.filling m

theorem stored_writeStart (h : Inv f) (hs : f.writeStart = (f', p)) (m : Mem UInt8) :
    f'.stored m = f.stored m := by
  cases p with
  | none =>
    obtain ⟨rfl, _⟩ := writeStart_none hs
    rfl
  | some p => rw [stored, (writeStart_same h hs).unread, writeStart_filling h hs, stored]

theorem stored_writeComplete (h : Inv f) (hw : f.Writing r) (ha : amt ≤ r.maxAmt) (m : Mem UInt8) :
    (f.writeComplete amt).stored m = f.stored m ++ m.load r.ptr amt :=
  writeComplete_content h hw ha m

theorem stored_store (h : Inv f) (hw : f.Writing r) (hb : off + bs.length ≤ r.maxAmt)
    (m : Mem UInt8) : f.stored (m.store (r.ptr + off) bs) = f.stored m := by
  obtain ⟨hu, hf⟩ := store_same h hw hb m
  rw [stored, hu, hf, stored]

theorem stored_readStart (h : Inv f) (hs : f.readStart = (f', p)) (m : Mem UInt8) :
    f'.stored m = f.stored m := by
  cases p with
  | none =>
    obtain ⟨rfl, _⟩ := readStart_none hs
    rfl
  | some p => rw [stored, readStart_unread h hs, (readStart_same h hs).filling h, stored]

theorem stored_readComplete (h : Inv f) (hr : f.Reading r) (ha : amt ≤ r.maxAmt) (m : Mem UInt8) :
    f.stored m = m.load r.ptr amt ++ (f.readComplete amt).stored m := by
  rw [stored, stored, (readComplete_same h hr).filling h, readComplete_content h hr ha,
    List.append_assoc]

/-- What holds at each point of `Write` for the bytes `buf`. -/
def WriteHas (f : BlockFifo) (m : Mem UInt8) (buf : List UInt8) : WritePc → Prop
  | .loop written | .done written => written ≤ buf.length
  | .copy written p => written < buf.length ∧ f.Writing p
  | .copied written amt => written + amt ≤ buf.length ∧
      ∃ p, f.Writing p ∧ amt ≤ p.maxAmt ∧ m.load p.ptr amt = (buf.drop written).take amt

theorem WriteHas.consumer {f f' : BlockFifo} (h : f.WriteHas m buf pc)
    (hk : ∀ r, f.Writing r → f'.Writing r) : f'.WriteHas m buf pc := by
  cases pc with
  | loop | done => exact h
  | copy => exact ⟨h.1, hk _ h.2⟩
  | copied =>
    obtain ⟨hle, p, hp, ha, hm⟩ := h
    exact ⟨hle, p, hk p hp, ha, hm⟩

theorem writeStep_stores (h : Inv f) (hw : f.WriteHas m buf pc)
    (hs : f.writeStep buf m pc = (f', m', pc')) :
    KeepsReading f f' ∧ f'.WriteHas m' buf pc' ∧
      ∃ bs, f'.stored m' = f.stored m ++ bs ∧
        buf.take pc'.written = buf.take pc.written ++ bs := by
  cases writeStep_cases hs with
  | room hlt hstart =>
    refine ⟨keepsReading_writeStart h hstart, ⟨hlt, writeStart_writing h hstart⟩, [], ?_,
      (List.append_nil _).symm⟩
    rw [stored_writeStart h hstart, List.append_nil]
  | full hstart =>
    refine ⟨keepsReading_writeStart h hstart, hw, [], ?_, (List.append_nil _).symm⟩
    rw [stored_writeStart h hstart, List.append_nil]
  | finish | done =>
    exact ⟨.refl h, hw, [], (List.append_nil _).symm, (List.append_nil _).symm⟩
  | @copy amt written p ha =>
    obtain ⟨hlt, hp⟩ := hw
    obtain ⟨hl, hm⟩ := turnAmt_le (buf.length - written) p.maxAmt
    rw [← ha] at hl hm
    have hlen : ((buf.drop written).take amt).length = amt := by
      rw [List.length_take, List.length_drop, Nat.min_eq_left hl]
    have hroom : 0 + ((buf.drop written).take amt).length ≤ p.maxAmt := by
      rwa [Nat.zero_add, hlen]
    have hstore := stored_store h hp hroom m
    rw [Addr.add_zero] at hstore
    have hload := Mem.load_store m p.ptr ((buf.drop written).take amt)
    rw [hlen] at hload
    have hle : written + amt ≤ buf.length := by omega
    refine ⟨.refl h, ⟨hle, p, hp, hm, hload⟩, [], ?_, (List.append_nil _).symm⟩
    rw [hstore, List.append_nil]
  | @copied written amt =>
    obtain ⟨hle, p, hp, ha, hm⟩ := hw
    refine ⟨keepsReading_writeComplete h hp ha, hle, (buf.drop written).take amt, ?_,
      List.take_add⟩
    rw [stored_writeComplete h hp ha, hm]

end BlockFifo

namespace RawTxSystem

/-- The bytes that finished calls have taken from the producer. -/
def accepted (s : RawTxSystem) : List UInt8 := s.sends.flatMap fun x => x.1.take x.2

/-- The bytes that were taken from the producer, with those of a `Send` still running. -/
def taken (s : RawTxSystem) : List UInt8 := s.accepted ++ s.caller.queued

def stored (s : RawTxSystem) : List UInt8 := s.buffer.fifo.stored s.mem

/-- What holds at each point of `Send`. -/
def CallerHas (f : BlockFifo) (m : Mem UInt8) : BufferSendPc → Prop
  | .idle => True
  | .loop data queued => queued ≤ data.length
  | .write data queued pc => queued ≤ data.length ∧ f.WriteHas m (data.drop queued) pc

/-- `Transferred` counts what finished calls have taken. -/
def Counted (s : RawTxSystem) : Prop :=
  s.buffer.transferred = UInt64.ofNat s.accepted.length

def overtaken (s : RawTxSystem) : Nat := s.pump.overtaken s.buffer.fifo

/-- What `Sent` counts of a turn that a `Reset` overtook fits into a block. -/
structure Small (f : BlockFifo) (late : Nat) (pc : WriteDataPc) : Prop where
  fits : late ≤ f.blkSize
  holding : ∀ r, pc = .holding r → r.maxAmt ≤ f.blkSize ∧ (f.inBlk = none → late = 0)
  inFlight : pc.inFlight ≤ f.blkSize

/-- Every byte taken is gone, or still in the ring, and the socket has those that are gone and the
ones in flight. `Sent` counts those that are gone, and `late` more. -/
structure Books (late : Nat) (s : RawTxSystem) : Prop where
  fifo : s.buffer.fifo.Inv
  caller : CallerHas s.buffer.fifo s.mem s.caller
  pump : TxSystem.PumpOk s.buffer.fifo s.pump
  small : Small s.buffer.fifo late s.pump
  counted : s.Counted
  bytes : ∃ gone, s.buffer.sent + UInt64.ofNat s.overtaken = UInt64.ofNat (late + gone.length) ∧
    s.taken = gone ++ s.stored ∧
    (late = 0 → s.wire = gone ++ s.stored.take (s.pump.unread s.buffer.fifo))

/-- What the steps of the producer do: the bytes they take go into the ring. -/
structure Stores (s t : RawTxSystem) : Prop where
  keeps : KeepsReading s.buffer.fifo t.buffer.fifo
  caller : CallerHas t.buffer.fifo t.mem t.caller
  pump : t.pump = s.pump
  wire : t.wire = s.wire
  sent : t.buffer.sent = s.buffer.sent
  counted : s.Counted → t.Counted
  bytes : ∃ bs, t.stored = s.stored ++ bs ∧ t.taken = s.taken ++ bs

theorem CallerHas.consumer {f f' : BlockFifo} (h : CallerHas f m pc)
    (hk : ∀ r, f.Writing r → f'.Writing r) : CallerHas f' m pc := by
  cases pc with
  | idle => trivial
  | loop => exact h
  | write => exact ⟨h.1, h.2.consumer hk⟩

theorem Small.producer (h : Small f late pc) (hk : KeepsReading f f') : Small f' late pc := by
  refine ⟨hk.blkSize ▸ h.fits, fun r hr => ?_, hk.blkSize ▸ h.inFlight⟩
  obtain ⟨hle, hlate⟩ := h.holding r hr
  exact ⟨hk.blkSize ▸ hle, fun hn => hlate (hk.inBlk.symm.trans hn)⟩

theorem Small.idle {f : BlockFifo} (h : late ≤ f.blkSize) : Small f late .idle := by
  refine ⟨h, fun r hr => ?_, Nat.zero_le _⟩
  cases hr

theorem Small.hand {f : BlockFifo} (hi : f.Inv) (hr : f.Reading r) (h : late ≤ f.blkSize) :
    Small f late (.holding r) := by
  refine ⟨h, fun q hq => ?_, Nat.zero_le _⟩
  cases hq
  obtain ⟨hin, rfl⟩ := hr
  exact ⟨Nat.le_trans (Nat.sub_le ..) (hi.len_le _),
    fun hn => absurd (hin.symm.trans hn) (Option.some_ne_none _)⟩

theorem Small.accepted {f : BlockFifo} (h : Small f late (.holding r)) (hn : n ≤ r.maxAmt) :
    Small f (late + WriteDataPc.overtaken f (.sent n)) (.sent n) := by
  obtain ⟨hle, hlate⟩ := h.holding r rfl
  have hn : n ≤ f.blkSize := Nat.le_trans hn hle
  refine ⟨?_, fun q hq => ?_, hn⟩
  · rw [WriteDataPc.overtaken]
    split
    · next hi =>
      rw [hlate hi, Nat.zero_add]
      exact hn
    · exact h.fits
  · cases hq

theorem Small.reset {f : BlockFifo} (h : Small f late pc) : Small f.reset pc.inFlight pc := by
  refine ⟨h.inFlight, fun r hr => ⟨(h.holding r hr).1, fun _ => ?_⟩, h.inFlight⟩
  rw [hr]
  rfl

theorem overtaken_zero (h : pc.inFlight = 0) (f : BlockFifo) :
    WriteDataPc.overtaken f pc = 0 ∧ WriteDataPc.unread f pc = 0 := by
  rw [WriteDataPc.overtaken, WriteDataPc.unread, h]
  exact ⟨ite_self _, ite_self _⟩

theorem Books.unread_le {s : RawTxSystem} (h : Books late s) :
    s.pump.unread s.buffer.fifo ≤ s.stored.length := by
  have hpump := h.pump
  rw [WriteDataPc.unread]
  split
  · exact Nat.zero_le _
  · next hi =>
    cases hp : s.pump with
    | idle | holding => exact Nat.zero_le _
    | sent rval =>
      rw [hp] at hpump
      obtain ⟨r, hr, hn⟩ := hpump.resolve_left hi
      have hlen := congrArg List.length (stored_readComplete h.fifo hr hn s.mem)
      rw [List.length_append, Mem.length_load] at hlen
      exact Nat.le.intro hlen.symm

theorem Books.producer {s t : RawTxSystem} (h : Books late s) (hs : Stores s t) :
    Books late t := by
  have hk := hs.keeps
  refine ⟨hk.inv, hs.caller, hs.pump ▸ h.pump.producer hk, hs.pump ▸ h.small.producer hk,
    hs.counted h.counted, ?_⟩
  obtain ⟨gone, hsent, htaken, hwire⟩ := h.bytes
  obtain ⟨bs, hstored, htaken'⟩ := hs.bytes
  refine ⟨gone, ?_, ?_, fun hz => ?_⟩
  · rw [hs.sent, overtaken, hs.pump, WriteDataPc.overtaken, hk.inBlk]
    exact hsent
  · rw [htaken', htaken, hstored, List.append_assoc]
  · have hu : t.pump.unread t.buffer.fifo = s.pump.unread s.buffer.fifo := by
      rw [hs.pump, WriteDataPc.unread, WriteDataPc.unread, hk.inBlk]
    rw [hs.wire, hwire hz, hu, hstored, List.take_append_of_le_length h.unread_le]

theorem counted_append {s t : RawTxSystem} {data : List UInt8} (hle : n ≤ data.length)
    (hsends : t.sends = s.sends ++ [(data, n)])
    (ht : t.buffer.transferred = s.buffer.transferred + UInt64.ofNat n) :
    t.accepted = s.accepted ++ data.take n ∧ (s.Counted → t.Counted) := by
  have ha : t.accepted = s.accepted ++ data.take n := by
    rw [accepted, hsends, List.flatMap_append, List.flatMap_singleton, accepted]
  refine ⟨ha, fun hc => ?_⟩
  rw [Counted, ht, hc, ha, List.length_append, List.length_take_of_le hle, UInt64.ofNat_add]

theorem ret_stores {s : RawTxSystem} (hi : s.buffer.fifo.Inv) (hle : queued ≤ data.length)
    (hq : s.caller.queued = data.take queued) : Stores s (s.ret data queued) := by
  obtain ⟨ha, hc⟩ := counted_append (s := s) (t := s.ret data queued) hle rfl rfl
  refine ⟨.refl hi, trivial, rfl, rfl, rfl, hc, [], (List.append_nil _).symm, ?_⟩
  rw [taken, ha, taken, hq, List.append_nil]
  exact List.append_nil _

theorem write_stores {s : RawTxSystem} (hi : s.buffer.fifo.Inv)
    (hc : s.caller = .write data queued pc) (hle : queued ≤ data.length)
    (hw : s.buffer.fifo.WriteHas s.mem (data.drop queued) pc)
    (hs : s.buffer.fifo.writeStep (data.drop queued) s.mem pc = (f', m', pc')) :
    Stores s { s with buffer.fifo := f', mem := m', caller := .write data queued pc' } := by
  obtain ⟨hk, hw', bs, hstored, hbs⟩ := writeStep_stores hi hw hs
  refine ⟨hk, ⟨hle, hw'⟩, rfl, rfl, rfl, id, bs, hstored, ?_⟩
  change s.accepted ++ data.take (queued + pc'.written) = s.accepted ++ s.caller.queued ++ bs
  rw [hc, BufferSendPc.queued, List.append_assoc, List.take_add, List.take_add, hbs,
    List.append_assoc]

theorem sendStep_stores {s t : RawTxSystem} (hi : s.buffer.fifo.Inv)
    (hc : CallerHas s.buffer.fifo s.mem s.caller) (hs : s.sendStep = some t) : Stores s t := by
  cases hcaller : s.caller with
  | idle =>
    simp only [sendStep, hcaller] at hs
    cases hs
  | loop data queued =>
    rw [hcaller] at hc
    simp only [sendStep, hcaller, Option.some.injEq] at hs
    subst hs
    split
    · refine ⟨.refl hi, ⟨hc, Nat.zero_le _⟩, rfl, rfl, rfl, id, [], (List.append_nil _).symm, ?_⟩
      rw [taken, taken, hcaller, List.append_nil]
      rfl
    · exact ret_stores hi hc (hcaller ▸ rfl)
  | write data queued pc =>
    rw [hcaller] at hc
    obtain ⟨hle, hw⟩ := hc
    cases pc with
    | done rval =>
      have hle' : rval ≤ data.length - queued := List.length_drop ▸ hw
      simp only [sendStep, hcaller, Option.some.injEq] at hs
      subst hs
      split
      · next hz => exact ret_stores hi hle (by rw [hcaller, hz]; rfl)
      · refine ⟨.refl hi, by change _ ≤ _; omega, rfl, rfl, rfl, id, [],
          (List.append_nil _).symm, ?_⟩
        rw [taken, taken, hcaller, List.append_nil]
        rfl
    | loop | copy | copied =>
      simp only [sendStep, hcaller, Option.some.injEq] at hs
      exact hs ▸ write_stores hi hcaller hle hw rfl

theorem enter_stores {s : RawTxSystem} (hi : s.buffer.fifo.Inv) (hc : s.caller = .idle)
    (data : List UInt8) : Stores s { s with caller := .loop data 0 } := by
  refine ⟨.refl hi, Nat.zero_le _, rfl, rfl, rfl, id, [], (List.append_nil _).symm, ?_⟩
  rw [taken, taken, hc]
  exact (List.append_nil _).symm

theorem sendStart_stores {s : RawTxSystem} (hi : s.buffer.fifo.Inv) (hc : s.caller = .idle) :
    Stores s { s with buffer := s.buffer.sendStart.1 } := by
  have hk : KeepsReading s.buffer.fifo s.buffer.fifo.writeStart.1 :=
    keepsReading_writeStart hi rfl
  refine ⟨hk, hc ▸ trivial, rfl, rfl, rfl, id, [], ?_, (List.append_nil _).symm⟩
  rw [List.append_nil]
  exact stored_writeStart hi rfl s.mem

theorem fill_stores {s : RawTxSystem} (hi : s.buffer.fifo.Inv) (hc : s.caller = .idle)
    (hw : s.buffer.fifo.Writing r) (hb : off + bs.length ≤ r.maxAmt) :
    Stores s { s with mem := s.mem.store (r.ptr + off) bs } := by
  refine ⟨.refl hi, hc ▸ trivial, rfl, rfl, rfl, id, [], ?_, (List.append_nil _).symm⟩
  rw [List.append_nil]
  exact stored_store hi hw hb s.mem

theorem sendComplete_stores {s : RawTxSystem} (hi : s.buffer.fifo.Inv) (hc : s.caller = .idle)
    (hw : s.buffer.fifo.Writing r) (ha : amt ≤ r.maxAmt) :
    Stores s { s with
      buffer := s.buffer.sendComplete amt, sends := s.sends ++ [(s.mem.load r.ptr amt, amt)] } := by
  have hlen : (s.mem.load r.ptr amt).length = amt := Mem.length_load ..
  obtain ⟨hacc, hcount⟩ := counted_append (s := s)
    (t := { s with
      buffer := s.buffer.sendComplete amt
      sends := s.sends ++ [(s.mem.load r.ptr amt, amt)] }) hlen.ge rfl rfl
  refine ⟨keepsReading_writeComplete hi hw ha, hc ▸ trivial, rfl, rfl, rfl, hcount,
    s.mem.load r.ptr amt, stored_writeComplete hi hw ha s.mem, ?_⟩
  rw [taken, hacc, taken, hc, List.take_of_length_le hlen.le, BufferSendPc.queued,
    List.append_nil, List.append_nil]

/-- What the steps of the pump do. -/
structure Drains (late : Nat) (s t : RawTxSystem) : Prop where
  books : Books late t
  keeps : KeepsWriting s.buffer.fifo t.buffer.fifo
  caller : t.caller = s.caller

theorem Books.settled {s : RawTxSystem} (h : Books late s) (hz : s.pump.inFlight = 0) :
    ∃ gone, s.buffer.sent = UInt64.ofNat (late + gone.length) ∧ s.taken = gone ++ s.stored ∧
      (late = 0 → s.wire = gone) := by
  obtain ⟨gone, hsent, htaken, hwire⟩ := h.bytes
  obtain ⟨ho, hu⟩ := overtaken_zero hz s.buffer.fifo
  rw [overtaken, ho] at hsent
  rw [hu, List.take_zero, List.append_nil] at hwire
  exact ⟨gone, (UInt64.add_zero _).symm.trans hsent, htaken, hwire⟩

theorem inFlight_zero {s : RawTxSystem} (hs : s.step a = some t)
    (ha : a = .writeDataStart ∨ ∃ res, a = .sent res) : s.pump.inFlight = 0 := by
  cases hp : s.pump with
  | idle | holding => rfl
  | sent rval =>
    rcases ha with rfl | ⟨res, rfl⟩
    all_goals
      simp only [step, hp] at hs
      cases hs

theorem Books.settle {s : RawTxSystem} (h : Books late s) (hk : KeepsWriting s.buffer.fifo f')
    (hp : TxSystem.PumpOk f' pc) (hsm : Small f' late pc) (hz : pc.inFlight = 0)
    (hb : ∃ gone, sent' = UInt64.ofNat (late + gone.length) ∧
      s.taken = gone ++ f'.stored s.mem ∧ (late = 0 → s.wire = gone)) :
    Drains late s { s with
      buffer.fifo := f', buffer.sent := sent', buffer.done := done', pump := pc } := by
  obtain ⟨gone, hsent, htaken, hwire⟩ := hb
  obtain ⟨ho, hu⟩ := overtaken_zero hz f'
  refine ⟨⟨hk.inv, h.caller.consumer hk.writing, hp, hsm, h.counted, gone, ?_, htaken, ?_⟩, hk, rfl⟩
  · rw [overtaken, ho]
    exact (UInt64.add_zero _).trans hsent
  · rw [hu, List.take_zero, List.append_nil]
    exact hwire

theorem Books.hand {s : RawTxSystem} (h : Books late s) (hz : s.pump.inFlight = 0)
    (hr : s.buffer.fifo.readStart = (f', some r)) : Drains late s (s.hand f' r) := by
  have hk := keepsWriting_readStart h.fifo hr
  have hreading := (readStart_cases h.fifo hr).2.2
  refine h.settle hk (.inr hreading) (.hand hk.inv hreading (hk.blkSize ▸ h.small.fits)) rfl ?_
  rw [stored_readStart h.fifo hr]
  exact h.settled hz

theorem Books.writeDataStart {s : RawTxSystem} (h : Books late s)
    (hs : s.step .writeDataStart = some t) : Drains late s t := by
  have hz := inFlight_zero hs (.inl rfl)
  cases step_cases hs with
  | startNone hr =>
    have hk := keepsWriting_readStart h.fifo hr
    refine h.settle hk trivial (.idle (hk.blkSize ▸ h.small.fits)) rfl ?_
    rw [stored_readStart h.fifo hr]
    exact h.settled hz
  | startSome hr => exact h.hand hz hr

/-- What the socket takes in a turn that a `Reset` overtook is late. -/
theorem Books.sent {s : RawTxSystem} (h : Books late s) (hs : s.step (.sent res) = some t) :
    Drains (late + t.overtaken) s t := by
  have hz := inFlight_zero hs (.inr ⟨res, rfl⟩)
  have hkeep : KeepsWriting s.buffer.fifo s.buffer.fifo := .refl h.fifo
  cases step_cases hs with
  | again | closed =>
    rw [overtaken, (overtaken_zero rfl _).1]
    exact h.settle hkeep trivial (.idle h.small.fits) rfl (h.settled hz)
  | @accepted r n hp hn =>
    obtain ⟨gone, hsent, htaken, hwire⟩ := h.settled hz
    have hpump := h.pump
    have hsmall := h.small
    rw [hp] at hpump hsmall
    refine ⟨⟨h.fifo, h.caller, hpump.imp_right fun hr => ⟨_, hr, hn⟩, hsmall.accepted hn,
      h.counted, gone, ?_, htaken, ?_⟩, hkeep, rfl⟩
    · rw [hsent, Nat.add_right_comm, ← UInt64.ofNat_add]
    · rw [overtaken, WriteDataPc.overtaken, WriteDataPc.unread]
      split
      · intro hz
        cases hz
      · next hi =>
        have hr := hpump.resolve_left hi
        intro hz
        rw [hwire hz, stored, stored_readComplete h.fifo hr hn, WriteDataPc.inFlight,
          List.take_left' (Mem.length_load ..)]

theorem Books.writeDataComplete {s : RawTxSystem} (h : Books late s)
    (hs : s.step .writeDataComplete = some t) : Drains late s t := by
  obtain ⟨gone, hsent, htaken, hwire⟩ := h.bytes
  cases step_cases hs with
  | @complete rval hp =>
    have hpump := h.pump
    rw [hp] at hpump hwire
    have hk := hpump.keepsWriting h.fifo
    have hsmall : Small (s.buffer.fifo.readComplete rval) late .idle :=
      .idle (hk.blkSize ▸ h.small.fits)
    rw [overtaken, hp, WriteDataPc.overtaken] at hsent
    rw [WriteDataPc.unread] at hwire
    refine h.settle hk trivial hsmall rfl ?_
    rcases hpump with hi | ⟨r, hr, hn⟩
    · rw [if_pos hi] at hsent hwire
      rw [readComplete_inBlk_none hi]
      rw [List.take_zero, List.append_nil] at hwire
      exact ⟨gone, hsent, htaken, hwire⟩
    · have hi : s.buffer.fifo.inBlk ≠ none := fun hn =>
        absurd (hr.1.symm.trans hn) (Option.some_ne_none _)
      rw [if_neg hi] at hsent hwire
      have hstored := stored_readComplete h.fifo hr hn s.mem
      refine ⟨gone ++ s.mem.load r.ptr rval, ?_, ?_, fun hz => ?_⟩
      · rw [List.length_append, Mem.length_load, ← Nat.add_assoc, UInt64.ofNat_add, ← hsent]
        exact congrArg (· + UInt64.ofNat rval) (UInt64.add_zero _).symm
      · rw [htaken, stored, hstored, List.append_assoc]
      · rw [hwire hz, stored, hstored, WriteDataPc.inFlight, List.take_left' (Mem.length_load ..)]

theorem init_books {b c : Nat} (hb : 0 < b) (hc : 0 < c) : Books 0 (init b c) :=
  ⟨new_inv hb hc, trivial, trivial, .idle (Nat.zero_le _), rfl, [], rfl, rfl, fun _ => rfl⟩

end RawTxSystem

/-- A buffer whose producer calls `Send` or fills the regions of `SendStart` itself. `held` is the
region between a `SendStart` and its `SendComplete`. `wire` and `sends` begin anew with each
`Attach` or `Reset`, and `late` is what the socket has taken in the turn of `WriteData` that it
overtook. -/
structure TxAccount where
  sys : RawTxSystem
  held : Option Region
  late : Nat

namespace TxAccount
open RawTxSystem (Books Stores)

def init (blkSize blkCount : Nat) : TxAccount := ⟨.init blkSize blkCount, none, 0⟩

inductive Act
  | send (data : List UInt8)
  | sendStep
  | sendStart
  | fill (off : Nat) (bs : List UInt8)
  | sendComplete (amt : Nat)
  | writeDataStart
  | sent (res : SendResult)
  | writeDataComplete
  | reset
  | attach
  | detach

/-- The producer is in no call and the pump in no turn of `WriteData`. -/
def Quiet (s : TxAccount) : Prop := s.sys.caller = .idle ∧ s.sys.pump = .idle

def lift (s : TxAccount) (a : RawTxSystem.Act) : Option TxAccount :=
  (s.sys.step a).map fun sys => { s with sys := sys }

def reset (s : TxAccount) : TxAccount :=
  { s with
    sys.buffer := s.sys.buffer.reset, sys.wire := [], sys.sends := []
    late := s.sys.pump.inFlight }

/-- A region that was started is completed before the producer does anything else. `Reset`, `Attach`
and `Detach` come from the producer, and `Attach` waits for the end of the pump. -/
def step (s : TxAccount) : Act → Option TxAccount
  | .send data =>
    match s.sys.caller, s.held with
    | .idle, none =>
      if data.length < 2 ^ 32 then some { s with sys.caller := .loop data 0 } else none
    | _, _ => none
  | .sendStep => s.lift .sendStep
  | .sendStart =>
    match s.sys.caller, s.held with
    | .idle, none =>
      let (buffer, buf) := s.sys.buffer.sendStart
      some { s with sys.buffer := buffer, held := buf }
    | _, _ => none
  | .fill off bs => s.held.bind fun r =>
    if off + bs.length ≤ r.maxAmt then
      some { s with sys.mem := s.sys.mem.store (r.ptr + off) bs }
    else none
  | .sendComplete amt => s.held.bind fun r =>
    if amt ≤ r.maxAmt then
      some { s with
        sys.buffer := s.sys.buffer.sendComplete amt, held := none
        sys.sends := s.sys.sends ++ [(s.sys.mem.load r.ptr amt, amt)] }
    else none
  | .writeDataStart => s.lift .writeDataStart
  | .sent res => (s.sys.step (.sent res)).map fun sys =>
    { s with sys := sys, late := s.late + sys.overtaken }
  | .writeDataComplete => s.lift .writeDataComplete
  | .reset =>
    match s.sys.caller, s.held with
    | .idle, none => some s.reset
    | _, _ => none
  | .attach =>
    match s.sys.caller, s.held, s.sys.pump with
    | .idle, none, .idle => some { s.reset with sys.buffer.done := false }
    | _, _, _ => none
  | .detach =>
    match s.sys.caller, s.held with
    | .idle, none => some { s with sys.buffer.done := true }
    | _, _ => none

def pumped : Pumped TxAccount Act where
  step := step
  buffer s := s.sys.buffer
  pump s := s.sys.pump
  hand s f r := { s with sys := s.sys.hand f r }
  isStart a := match a with
    | .writeDataStart => true
    | _ => false
  isReset a := match a with
    | .reset | .attach => true
    | _ => false
  result a := match a with
    | .sent res => some res
    | _ => none

structure Inv (b : Nat) (s : TxAccount) : Prop where
  books : Books s.late s.sys
  blkSize : s.sys.buffer.fifo.blkSize = b
  held : ∀ r, s.held = some r → s.sys.caller = .idle ∧ s.sys.buffer.fifo.Writing r

theorem drain_inv (h : Inv b s) (hd : RawTxSystem.Drains n s.sys u) :
    Inv b ⟨u, s.held, n⟩ := by
  refine ⟨hd.books, hd.keeps.blkSize.trans h.blkSize, fun r hr => ?_⟩
  obtain ⟨hc, hw⟩ := h.held r hr
  exact ⟨hd.caller.trans hc, hd.keeps.writing r hw⟩

theorem held_none {w : Option Region} {P : Region → Prop} (hn : w = none) (r : Region)
    (hr : w = some r) : P r :=
  absurd (hn.symm.trans hr) (Option.some_ne_none r).symm

theorem producer_inv (h : Inv b s) (hs : Stores s.sys u)
    (hw : ∀ r, w = some r → u.caller = .idle ∧ u.buffer.fifo.Writing r) : Inv b ⟨u, w, s.late⟩ :=
  ⟨h.books.producer hs, hs.keeps.blkSize.trans h.blkSize, hw⟩

theorem Inv.setDone (h : Inv b s) : Inv b { s with sys.buffer.done := d } :=
  ⟨⟨h.books.fifo, h.books.caller, h.books.pump, h.books.small, h.books.counted, h.books.bytes⟩,
    h.blkSize, h.held⟩

theorem reset_inv (h : Inv b s) (hc : s.sys.caller = .idle) (hheld : s.held = none) :
    Inv b s.reset where
  books := by
    have hempty : s.reset.sys.stored = [] := rfl
    refine ⟨BlockFifo.reset_inv h.books.fifo, hc ▸ trivial, h.books.pump.reset,
      h.books.small.reset, rfl, [], ?_, ?_, fun _ => ?_⟩
    · exact UInt64.zero_add _
    · rw [hempty, RawTxSystem.taken]
      exact congrArg BufferSendPc.queued hc
    · rw [hempty, List.take_nil]
      rfl
  blkSize := h.blkSize
  held := held_none hheld

/-- What the steps do: the producer stores, the pump drains, and the rest sets the buffer back or
stops the pump. -/
inductive Step (s : TxAccount) : Act → TxAccount → Prop
  | stores (ha : pumped.isReset a = false) (hs : Stores s.sys u)
    (hw : ∀ r, w = some r → u.caller = .idle ∧ u.buffer.fifo.Writing r) : Step s a ⟨u, w, s.late⟩
  | drains (ha : pumped.isStart a = true ∨ s.sys.pump ≠ .idle)
    (hd : RawTxSystem.Drains n s.sys u) : Step s a ⟨u, s.held, n⟩
  | reset (hc : s.sys.caller = .idle) (hheld : s.held = none) : Step s .reset s.reset
  | attach (hc : s.sys.caller = .idle) (hheld : s.held = none) (hp : s.sys.pump = .idle) :
    Step s .attach { s.reset with sys.buffer.done := false }
  | detach : Step s .detach { s with sys.buffer.done := true }

theorem pump_busy {s : RawTxSystem} (hs : s.step a = some t)
    (ha : a = .writeDataComplete ∨ ∃ res, a = .sent res) : s.pump ≠ .idle := by
  intro hp
  rcases ha with rfl | ⟨res, rfl⟩
  all_goals
    simp only [RawTxSystem.step, hp] at hs
    cases hs

theorem step_cases (h : Inv b s) (hs : step s a = some t) : Step s a t := by
  have hfifo := h.books.fifo
  cases a with
  | send data =>
    simp only [step] at hs
    split at hs
    · next hc hheld =>
      split at hs
      · cases hs
        exact .stores rfl (RawTxSystem.enter_stores hfifo hc data) (held_none hheld)
      · cases hs
    · cases hs
  | sendStep =>
    obtain ⟨u, hu, rfl⟩ := Option.map_eq_some_iff.1 hs
    refine .stores rfl (RawTxSystem.sendStep_stores hfifo h.books.caller hu) fun r hr => ?_
    -- between `SendStart` and `SendComplete` no `Send` is running
    simp only [RawTxSystem.step, RawTxSystem.sendStep, (h.held r hr).1] at hu
    cases hu
  | sendStart =>
    simp only [step] at hs
    split at hs
    · next hc hheld =>
      cases hs
      exact .stores rfl (RawTxSystem.sendStart_stores hfifo hc) fun r hr =>
        ⟨hc, writeStart_writing hfifo (Prod.ext rfl hr)⟩
    · cases hs
  | fill off bs =>
    obtain ⟨r, hr, hs⟩ := Option.bind_eq_some_iff.1 hs
    obtain ⟨hc, hw⟩ := h.held r hr
    split at hs
    · next hb =>
      cases hs
      exact .stores rfl (RawTxSystem.fill_stores hfifo hc hw hb) h.held
    · cases hs
  | sendComplete amt =>
    obtain ⟨r, hr, hs⟩ := Option.bind_eq_some_iff.1 hs
    obtain ⟨hc, hw⟩ := h.held r hr
    split at hs
    · next ha =>
      cases hs
      exact .stores rfl (RawTxSystem.sendComplete_stores hfifo hc hw ha) (held_none rfl)
    · cases hs
  | writeDataStart =>
    obtain ⟨u, hu, rfl⟩ := Option.map_eq_some_iff.1 hs
    exact .drains (.inl rfl) (h.books.writeDataStart hu)
  | sent res =>
    obtain ⟨u, hu, rfl⟩ := Option.map_eq_some_iff.1 hs
    exact .drains (.inr (pump_busy hu (.inr ⟨res, rfl⟩))) (h.books.sent hu)
  | writeDataComplete =>
    obtain ⟨u, hu, rfl⟩ := Option.map_eq_some_iff.1 hs
    exact .drains (.inr (pump_busy hu (.inl rfl))) (h.books.writeDataComplete hu)
  | reset =>
    simp only [step] at hs
    split at hs
    · next hc hheld =>
      cases hs
      exact .reset hc hheld
    · cases hs
  | attach =>
    simp only [step] at hs
    split at hs
    · next hc hheld hp =>
      cases hs
      exact .attach hc hheld hp
    · cases hs
  | detach =>
    simp only [step] at hs
    split at hs
    · cases hs
      exact .detach
    · cases hs

theorem step_inv (h : Inv b s) (hs : Step s a t) : Inv b t := by
  cases hs with
  | stores ha hs hw => exact producer_inv h hs hw
  | drains ha hd => exact drain_inv h hd
  | reset hc hheld => exact reset_inv h hc hheld
  | attach hc hheld hp => exact (reset_inv h hc hheld).setDone
  | detach => exact h.setDone

theorem pumped_keeps (b : Nat) : pumped.Keeps (Inv b) where
  fifo s h := h.books.fifo
  step s a t h hs := step_inv h (step_cases h hs)
  hand s f r h hp hr := drain_inv h (h.books.hand (congrArg WriteDataPc.inFlight hp) hr)
  idle s a t h hs hst hp := by
    cases step_cases h hs with
    | stores ha hstores hw =>
      refine ⟨hstores.pump.trans hp, ?_⟩
      rw [TxLocks.Leaves, ha]
      exact ⟨hstores.keeps.inBlk, hstores.keeps.count⟩
    | drains ha hd => exact absurd hp (ha.resolve_left (Bool.eq_false_iff.1 hst))
    | reset | attach => exact ⟨hp, rfl⟩
    | detach => exact ⟨hp, rfl, Nat.le_refl _⟩

theorem init_inv {b c : Nat} (hb : 0 < b) (hc : 0 < c) : Inv b (init b c) where
  books := RawTxSystem.init_books hb hc
  blkSize := rfl
  held := held_none rfl

/-- What the counters say between the operations of the two threads. `Transferred` counts the bytes
taken from the producer, the socket has the first `Sent` of them, and the ring holds the others. -/
structure Accounted (s : TxAccount) : Prop where
  transferred : s.sys.buffer.transferred = UInt64.ofNat s.sys.accepted.length
  sent : ∃ n ≤ s.sys.accepted.length, s.sys.buffer.sent = UInt64.ofNat n ∧
    s.sys.wire = s.sys.accepted.take n ∧
    s.sys.accepted.length - n = (s.sys.buffer.fifo.unread s.sys.mem).length +
      (s.sys.buffer.fifo.filling s.sys.mem).length
  left : s.sys.buffer.transferred - s.sys.buffer.sent =
    UInt64.ofNat ((s.sys.buffer.fifo.unread s.sys.mem).length +
      (s.sys.buffer.fifo.filling s.sys.mem).length)

end TxAccount
end Avs4000
