import Avs4000.TcpRxSignalClient

namespace Avs4000
namespace RxSystem
open Memory
open TcpRxSignalClient (pktSize receiveAmt complete)
set_option autoImplicit true

/-- What the steps of `ReceiveSamples` do, one case for each way they can go. -/
inductive ReceiveStep (s : RxSystem) : RxSystem → Prop
  | enter (hc : s.caller = .loop count recv samples tList) (hlt : recv < count)
    (hz : s.client.partialCount = 0) (hf : ¬s.client.buffer.fifo.empty) :
    ReceiveStep s { s with caller := .ready count recv samples tList }
  | timeout (hc : s.caller = .loop count recv samples tList) (hlt : recv < count)
    (hz : s.client.partialCount = 0) (hf : s.client.buffer.fifo.empty) :
    ReceiveStep s (s.ret count recv samples tList)
  | goOn (hc : s.caller = .loop count recv samples tList) (hlt : recv < count)
    (hz : s.client.partialCount ≠ 0) :
    ReceiveStep s { s with caller := .copy count recv samples tList }
  | finish (hc : s.caller = .loop count recv samples tList) (hge : ¬recv < count) :
    ReceiveStep s (s.ret count recv samples tList)
  | noBlock (hc : s.caller = .ready count recv samples tList)
    (hr : s.client.buffer.fifo.readStart = (f', none)) :
    ReceiveStep s { s with client.buffer.fifo := f', caller := .fault }
  | parse (hc : s.caller = .ready count recv samples tList)
    (hr : s.client.buffer.fifo.readStart = (f', some r)) (hk : c = { s.client with
      buffer.fifo := f', packet := s.client.packet.init s.mem r.ptr pktSize }) :
    ReceiveStep s { s with
      client := c, caller := .copy count recv samples (tList ++ [c.timeTag recv])
      parsed := s.parsed ++ [s.mem.load r.ptr pktSize] }
  | copy (hc : s.caller = .copy count recv samples tList)
    (hb : s.client.packet.samples = some sbuf) : ReceiveStep s { s with
      client.partialCount := s.client.partialCount + s.client.receiveAmt count recv
      caller := .copied count recv (samples ++ s.mem.loadWords (sbuf + 4 * s.client.partialCount)
        (s.client.receiveAmt count recv)) tList (s.client.receiveAmt count recv) }
  | fault (hc : s.caller = .copy count recv samples tList) (hb : s.client.packet.samples = none) :
    ReceiveStep s { s with caller := .fault }
  | copied (hc : s.caller = .copied count recv samples tList amt) : ReceiveStep s { s with
      client := s.client.complete, caller := .loop count (recv + amt) samples tList }

/-- What the steps do, one case for each way they can go. -/
inductive Step (s : RxSystem) : Act → RxSystem → Prop
  | receive (hc : s.caller = .idle) (hlt : count < 2 ^ 32) :
    Step s (.receive count) { s with caller := .loop count 0 [] [] }
  | receiveStep (h : ReceiveStep s t) : Step s .receiveStep t
  | flush (hc : s.caller = .idle) : Step s .flush { s with client := s.client.flush }
  | startNone (hp : s.pump = .idle) (hd : s.client.buffer.done = false)
    (hw : s.client.buffer.fifo.writeStart = (f', none)) :
    Step s .readDataStart { s with client.buffer.fifo := f', pump := .idle }
  | startSome (hp : s.pump = .idle) (hd : s.client.buffer.done = false)
    (hw : s.client.buffer.fifo.writeStart = (f', some r)) :
    Step s .readDataStart { s with client.buffer.fifo := f', pump := .holding r }
  | again (hp : s.pump = .holding r) : Step s (.got .again) { s with pump := .idle }
  | closed (hp : s.pump = .holding r) (hres : res = .error ∨ res = .data 0) :
    Step s (.got res) { s with client.buffer.done := true, pump := .idle }
  | data (hp : s.pump = .holding r) (hm : n + 1 ≤ r.maxAmt) (hn : n + 1 ≤ s.incoming.length) :
    Step s (.got (.data (n + 1))) { s with
      pump := .got (n + 1), mem := s.mem.store r.ptr (s.incoming.take (n + 1))
      incoming := s.incoming.drop (n + 1), received := s.received ++ s.incoming.take (n + 1) }
  | complete (hp : s.pump = .got rval) : Step s .readDataComplete { s with
      client.buffer := s.client.buffer.readDataComplete rval, pump := .idle }

theorem receiveStep_cases {s t : RxSystem} (h : s.receiveStep = some t) : ReceiveStep s t := by
  cases hc : s.caller with
  | idle | fault =>
    simp only [receiveStep, hc] at h
    cases h
  | loop count recv samples tList =>
    simp only [receiveStep, hc, Option.some.injEq] at h
    subst h
    split
    · next hlt =>
      split
      · next hz =>
        split
        · next hf => exact .enter hc hlt hz (of_decide_eq_false (Bool.not_eq_true' _ ▸ hf))
        · next hf =>
          rw [Bool.not_eq_true, SocketRxBuffer.waitForReadyReceive, Bool.not_eq_false'] at hf
          exact .timeout hc hlt hz (of_decide_eq_true hf)
      · next hz => exact .goOn hc hlt hz
    · next hge => exact .finish hc hge
  | ready count recv samples tList =>
    rcases hr : s.client.buffer.fifo.readStart with ⟨f', buf⟩
    cases buf with
    | none =>
      simp only [receiveStep, hc, SocketRxBuffer.receiveStart, hr, Option.some.injEq] at h
      exact h ▸ .noBlock hc hr
    | some r =>
      simp only [receiveStep, hc, SocketRxBuffer.receiveStart, hr, Option.some.injEq] at h
      exact h ▸ .parse hc hr rfl
  | copy count recv samples tList =>
    cases hb : s.client.packet.samples with
    | none =>
      simp only [receiveStep, hc, hb, Option.some.injEq] at h
      exact h ▸ .fault hc hb
    | some sbuf =>
      simp only [receiveStep, hc, hb, Option.some.injEq] at h
      exact h ▸ .copy hc hb
  | copied count recv samples tList amt =>
    simp only [receiveStep, hc, Option.some.injEq] at h
    exact h ▸ .copied hc

theorem step_cases {s t : RxSystem} (h : step s a = some t) : Step s a t := by
  cases a with
  | receive count =>
    simp only [step] at h
    split at h
    · next hc =>
      split at h
      · next hlt =>
        cases h
        exact .receive hc hlt
      · cases h
    · cases h
  | receiveStep => exact .receiveStep (receiveStep_cases h)
  | flush =>
    simp only [step] at h
    split at h
    · next hc =>
      cases h
      exact .flush hc
    · cases h
  | readDataStart =>
    simp only [step] at h
    split at h
    · next hp =>
      split at h
      · cases h
      · next hd =>
        rcases hw : s.client.buffer.fifo.writeStart with ⟨f', buf⟩
        cases buf with
        | none =>
          simp only [SocketRxBuffer.readDataStart, hw, Option.some.injEq] at h
          exact h ▸ .startNone hp (Bool.not_eq_true _ ▸ hd) hw
        | some r =>
          simp only [SocketRxBuffer.readDataStart, hw, Option.some.injEq] at h
          exact h ▸ .startSome hp (Bool.not_eq_true _ ▸ hd) hw
    · cases h
  | got res =>
    simp only [step] at h
    split at h
    · next r hp =>
      rcases res with _ | _ | k
      · cases h
        exact .again hp
      · cases h
        exact .closed hp (.inl rfl)
      · dsimp only at h
        split at h
        · next hk =>
          cases h
          cases k with
          | zero =>
            rw [List.take_zero, List.drop_zero, List.append_nil, Mem.store_nil]
            exact .closed hp (.inr rfl)
          | succ n => exact .data hp hk.1 hk.2
        · cases h
    · cases h
  | readDataComplete =>
    simp only [step] at h
    split at h
    · next rval hp =>
      cases h
      exact .complete hp
    · cases h

end RxSystem
end Avs4000
