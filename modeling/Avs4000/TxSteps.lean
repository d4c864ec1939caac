import Avs4000.TcpTxSignalClient

namespace Avs4000

/-- Where `Send` asks the ring for room, the first time or after it closed a block early. -/
def SendPc.Starts (x : SendPc) (data : List UInt8) (sent : Nat) : Prop :=
  x = .ready data sent ∨ ∃ max, x = .restart data sent max

namespace TxSystem
open Memory
open TcpTxSignalClient (pktSize sendAmt)
set_option autoImplicit true

/-- What the steps of `Send` do, one case for each way they can go. -/
inductive SendStep (s : TxSystem) : TxSystem → Prop
  | enter (hc : s.caller = .loop data sent) (hlt : sent < data.length) (hz : s.client.plen = 0)
    (hf : ¬s.client.buffer.fifo.full) : SendStep s { s with caller := .ready data sent }
  | timeout (hc : s.caller = .loop data sent) (hlt : sent < data.length) (hz : s.client.plen = 0)
    (hf : s.client.buffer.fifo.full) : SendStep s (s.ret data sent)
  | goOn (hc : s.caller = .loop data sent) (hlt : sent < data.length) (hz : s.client.plen ≠ 0) :
    SendStep s { s with caller := .fill data sent }
  | finish (hc : s.caller = .loop data sent) (hge : ¬sent < data.length) :
    SendStep s (s.ret data sent)
  | short (hc : s.caller = .ready data sent) (hw : s.client.buffer.fifo.writeStart = (f', buf))
    (hm : m < pktSize) (hb : ∀ r, buf = some r → r.maxAmt = m) :
    SendStep s { s with client.buffer.fifo := f', caller := .forced data sent m }
  | noRoom (hc : s.caller.Starts data sent) (hw : s.client.buffer.fifo.writeStart = (f', buf)) :
    SendStep s ({ s with client.buffer.fifo := f' }.ret data sent)
  | room (hc : s.caller.Starts data sent) (hw : s.client.buffer.fifo.writeStart = (f', some r))
    (hm : pktSize ≤ r.maxAmt) :
    SendStep s { s with client.buffer.fifo := f', caller := .attach data sent r.ptr }
  | force (hc : s.caller = .forced data sent m) : SendStep s { s with
      client.buffer := s.client.buffer.sendComplete 0, caller := .restart data sent m }
  | attach (hc : s.caller = .attach data sent buf) : SendStep s { s with
      client := (s.client.attach s.mem buf).1, mem := (s.client.attach s.mem buf).2
      caller := .fill data sent }
  | fill (hc : s.caller = .fill data sent) (hb : s.client.packet.sampleBuffer = some sbuf) :
    SendStep s { s with
      client.plen := s.client.plen + s.client.sendAmt data sent
      mem := s.mem.store (sbuf + s.client.plen)
        ((data.drop sent).take (s.client.sendAmt data sent))
      caller := .filled data sent (s.client.sendAmt data sent) }
  | fault (hc : s.caller = .fill data sent) (hb : s.client.packet.sampleBuffer = none) :
    SendStep s { s with caller := .fault }
  | filled (hc : s.caller = .filled data sent amt) :
    SendStep s { s with client := s.client.complete, caller := .loop data (sent + amt) }

/-- What the steps do, one case for each way they can go. -/
inductive Step (s : TxSystem) : Act → TxSystem → Prop
  | send (hc : s.caller = .idle) (hpos : 0 < data.length) (hlt : data.length < 2 ^ 32) :
    Step s (.send data) { s with caller := .loop data 0 }
  | sendStep (junk : Nat) (h : SendStep s t) : Step s (.sendStep junk) t
  | flush (hc : s.caller = .idle) : Step s .flush { s with client := s.client.flush }
  | startNone (hp : s.pump = .idle) (hd : s.client.buffer.done = false)
    (hr : s.client.buffer.fifo.readStart = (f', none)) :
    Step s .writeDataStart { s with client.buffer.fifo := f', pump := .idle }
  | startSome (hp : s.pump = .idle) (hd : s.client.buffer.done = false)
    (hr : s.client.buffer.fifo.readStart = (f', some r)) :
    Step s .writeDataStart { s with client.buffer.fifo := f', pump := .holding r }
  | again (hp : s.pump = .holding r) : Step s (.sent .again) { s with pump := .idle }
  | closed (hp : s.pump = .holding r) (hres : res = .error ∨ res = .accepted 0) :
    Step s (.sent res) { s with client.buffer.done := true, pump := .idle }
  | accepted (hp : s.pump = .holding r) (hn : n + 1 ≤ r.maxAmt) :
    Step s (.sent (.accepted (n + 1))) { s with
      pump := .sent (n + 1), wire := s.wire ++ s.mem.load r.ptr (n + 1) }
  | complete (hp : s.pump = .sent rval) : Step s .writeDataComplete { s with
      client.buffer := s.client.buffer.writeDataComplete rval, pump := .idle }

theorem sendStep_cases {s t : TxSystem} (h : s.sendStep junk = some t) : SendStep s t := by
  cases hc : s.caller with
  | idle | fault =>
    simp only [sendStep, hc] at h
    cases h
  | loop data sent =>
    simp only [sendStep, hc, Option.some.injEq] at h
    subst h
    split
    · next hlt =>
      split
      · next hz =>
        split
        · next hf => exact .enter hc hlt hz (of_decide_eq_false (Bool.not_eq_true' _ ▸ hf))
        · next hf =>
          rw [Bool.not_eq_true, SocketTxBuffer.waitForReadySend, Bool.not_eq_false'] at hf
          exact .timeout hc hlt hz (of_decide_eq_true hf)
      · next hz => exact .goOn hc hlt hz
    · next hge => exact .finish hc hge
  | ready data sent =>
    rcases hw : s.client.buffer.fifo.writeStart with ⟨f', buf⟩
    simp only [sendStep, hc, SocketTxBuffer.sendStart, hw, Option.some.injEq] at h
    subst h
    split
    · next hm =>
      refine .short hc hw hm ?_
      rintro r rfl
      rfl
    · next hm =>
      cases buf with
      | none => exact .noRoom (.inl hc) hw
      | some r => exact .room (.inl hc) hw (Nat.le_of_not_lt hm)
  | forced data sent max =>
    simp only [sendStep, hc, Option.some.injEq] at h
    exact h ▸ .force hc
  | restart data sent max =>
    rcases hw : s.client.buffer.fifo.writeStart with ⟨f', buf⟩
    simp only [sendStep, hc, SocketTxBuffer.sendStart, hw, Option.some.injEq] at h
    subst h
    split
    · exact .noRoom (.inr ⟨max, hc⟩) hw
    · next hm =>
      cases buf with
      | none => exact .noRoom (.inr ⟨max, hc⟩) hw
      | some r => exact .room (.inr ⟨max, hc⟩) hw (Nat.le_of_not_lt hm)
  | attach data sent buf =>
    simp only [sendStep, hc] at h
    cases h
    exact .attach hc
  | fill data sent =>
    cases hb : s.client.packet.sampleBuffer with
    | none =>
      simp only [sendStep, hc, hb, Option.some.injEq] at h
      exact h ▸ .fault hc hb
    | some sbuf =>
      simp only [sendStep, hc, hb, Option.some.injEq] at h
      exact h ▸ .fill hc hb
  | filled data sent amt =>
    simp only [sendStep, hc, Option.some.injEq] at h
    exact h ▸ .filled hc

theorem step_cases {s t : TxSystem} (h : step s a = some t) : Step s a t := by
  cases a with
  | send data =>
    simp only [step] at h
    split at h
    · next hc =>
      split at h
      · next hd =>
        cases h
        exact .send hc hd.1 hd.2
      · cases h
    · cases h
  | sendStep junk => exact .sendStep junk (sendStep_cases h)
  | flush =>
    simp only [step] at h
    split at h
    · next hc =>
      cases h
      exact .flush hc
    · cases h
  | writeDataStart =>
    simp only [step] at h
    split at h
    · next hp =>
      split at h
      · cases h
      · next hd =>
        rcases hr : s.client.buffer.fifo.readStart with ⟨f', buf⟩
        cases buf with
        | none =>
          simp only [SocketTxBuffer.writeDataStart, hr, Option.some.injEq] at h
          exact h ▸ .startNone hp (Bool.not_eq_true _ ▸ hd) hr
        | some r =>
          simp only [SocketTxBuffer.writeDataStart, hr, Option.some.injEq] at h
          exact h ▸ .startSome hp (Bool.not_eq_true _ ▸ hd) hr
    · cases h
  | sent res =>
    simp only [step] at h
    split at h
    · next r hp =>
      rcases res with _ | _ | k
      · cases h
        exact .again hp
      · cases h
        exact .closed hp (.inl rfl)
      · dsimp only at h
        split at h
        · next hk =>
          cases h
          cases k with
          | zero =>
            rw [Mem.load_zero, List.append_nil]
            exact .closed hp (.inr rfl)
          | succ n => exact .accepted hp hk
        · cases h
    · cases h
  | writeDataComplete =>
    simp only [step] at h
    split at h
    · next rval hp =>
      cases h
      exact .complete hp
    · cases h

end TxSystem
end Avs4000
