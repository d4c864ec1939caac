import Avs4000.BlockFifoBulk
import Avs4000.BlockFifoNoEmpty
import Avs4000.Lib.Run
import Avs4000.SocketRxBuffer

namespace Avs4000
open Memory
set_option autoImplicit true

/-- The functions a reader may call without VITA-49 framing: `Receive` of the buffer itself, and
`ReceiveSamples` and `Receive` of a client with `useV49` clear. -/
inductive ReceiveFn
  | buffer (len : Nat)
  | samples (count : Nat)
  | bytes (len : Nat)

namespace ReceiveFn

/-- The `len` that `ReceiveSamples` passes on, computed in `size_t`. -/
def samplesLen (count : Nat) : Nat := count * 4 % 2 ^ 64 / 4 % 2 ^ 32

/-- The `len` that reaches `Receive` of the buffer. -/
def len : ReceiveFn → Nat
  | .buffer len => len
  | .samples count => samplesLen count
  | .bytes len => samplesLen (len / 4)

/-- What is returned when `Receive` of the buffer has read `read` bytes. -/
def result (read : Nat) : ReceiveFn → Nat
  | .buffer _ | .samples _ => read
  | .bytes _ => read * 4 % 2 ^ 32

/-- The argument is one that a 32-bit parameter can hold. -/
def InRange : ReceiveFn → Prop
  | .buffer n | .samples n | .bytes n => n < 2 ^ 32

instance : DecidablePred InRange
  | .buffer _ | .samples _ | .bytes _ => Nat.decLt ..

end ReceiveFn

/-- Where the reading thread stands in `Receive` of a `SocketRxBuffer`, with the bytes read so
far. -/
inductive BufferReceivePc
  | idle
  | loop (fn : ReceiveFn) (out : List UInt8)
  | read (fn : ReceiveFn) (out : List UInt8) (pc : ReadPc)

/-- A finished call with the bytes it wrote to `data`. -/
structure RawReceiveCall where
  fn : ReceiveFn
  bytes : List UInt8

/-- A client with `useV49` clear: its buffer, the reader and the pump. `incoming` and `received`
are as in `RxSystem`. -/
structure RawRxSystem where
  buffer : SocketRxBuffer
  mem : Mem UInt8
  caller : BufferReceivePc
  pump : ReadDataPc
  incoming : List UInt8
  received : List UInt8
  calls : List RawReceiveCall

def RawReceiveCall.result (c : RawReceiveCall) : Nat := c.fn.result c.bytes.length

namespace RawRxSystem

def init (stream : List UInt8) (blkSize blkCount : Nat) : RawRxSystem where
  buffer := .new blkSize blkCount
  mem _ := 0
  caller := .idle
  pump := .idle
  incoming := stream
  received := []
  calls := []

/-- `Receive` returns. -/
def ret (s : RawRxSystem) (fn : ReceiveFn) (out : List UInt8) : RawRxSystem :=
  { s with caller := .idle, calls := s.calls ++ [⟨fn, out⟩] }

/-- The next step of `Receive`. -/
def receiveStep (s : RawRxSystem) : Option RawRxSystem :=
  match s.caller with
  | .idle => none
  | .loop fn out => some <|
    if !s.buffer.done ∧ out.length < fn.len then { s with caller := .read fn out (.loop []) }
    else s.ret fn out
  | .read fn out (.done bs) => some <|
    if bs.length = 0 then s.ret fn out else { s with caller := .loop fn (out ++ bs) }
  | .read fn out pc =>
    let (fifo, pc) := s.buffer.fifo.readStep (fn.len - out.length) s.mem pc
    some { s with buffer.fifo := fifo, caller := .read fn out pc }

inductive Act
  | receive (fn : ReceiveFn)
  | receiveStep
  | readDataStart
  | got (res : RecvResult)
  | readDataComplete

/-- A call is made when no other is running, and the pump stops once `done` is set. -/
def step (s : RawRxSystem) : Act → Option RawRxSystem
  | .receive fn =>
    match s.caller with
    | .idle => if fn.InRange then some { s with caller := .loop fn [] } else none
    | _ => none
  | .receiveStep => s.receiveStep
  | .readDataStart =>
    match s.pump with
    | .idle =>
      if s.buffer.done then none
      else
        let (buffer, pump) := s.buffer.readDataStart
        some { s with buffer := buffer, pump := pump }
    | _ => none
  | .got res =>
    match s.pump with
    | .holding r =>
      let (buffer, pump) := s.buffer.readDataGot res
      match res with
      | .data n =>
        if n ≤ r.maxAmt ∧ n ≤ s.incoming.length then
          some { s with
            buffer := buffer, pump := pump
            mem := s.mem.store r.ptr (s.incoming.take n)
            incoming := s.incoming.drop n, received := s.received ++ s.incoming.take n }
        else none
      | _ => some { s with buffer := buffer, pump := pump }
    | _ => none
  | .readDataComplete =>
    match s.pump with
    | .got rval => some { s with buffer := s.buffer.readDataComplete rval, pump := .idle }
    | _ => none

/-- What the steps of `Receive` do, one case for each way they can go. -/
inductive ReceiveStep (s : RawRxSystem) : RawRxSystem → Prop
  | enter (hc : s.caller = .loop fn out) (hd : s.buffer.done = false)
    (hlt : out.length < fn.len) : ReceiveStep s { s with caller := .read fn out (.loop []) }
  | finish (hc : s.caller = .loop fn out) (hd : s.buffer.done = true ∨ fn.len ≤ out.length) :
    ReceiveStep s (s.ret fn out)
  | nothing (hc : s.caller = .read fn out (.done [])) : ReceiveStep s (s.ret fn out)
  | goOn (hc : s.caller = .read fn out (.done bs)) (hb : bs ≠ []) :
    ReceiveStep s { s with caller := .loop fn (out ++ bs) }
  | look (hc : s.caller = .read fn out (.loop bs)) (hlt : bs.length < fn.len - out.length)
    (hr : s.buffer.fifo.readStart = (f', some p)) :
    ReceiveStep s { s with buffer.fifo := f', caller := .read fn out (.copy bs p) }
  | empty (hc : s.caller = .read fn out (.loop bs)) (hlt : bs.length < fn.len - out.length)
    (hr : s.buffer.fifo.readStart = (f', none)) :
    ReceiveStep s { s with buffer.fifo := f', caller := .read fn out (.done bs) }
  | full (hc : s.caller = .read fn out (.loop bs)) (hge : fn.len - out.length ≤ bs.length) :
    ReceiveStep s { s with caller := .read fn out (.done bs) }
  | copy (hc : s.caller = .read fn out (.copy bs p))
    (ha : amt = BlockFifo.turnAmt (fn.len - out.length - bs.length) p.maxAmt) :
    ReceiveStep s { s with caller := .read fn out (.copied (bs ++ s.mem.load p.ptr amt) amt) }
  | copied (hc : s.caller = .read fn out (.copied bs amt)) :
    ReceiveStep s { s with
      buffer.fifo := s.buffer.fifo.readComplete amt, caller := .read fn out (.loop bs) }

/-- What the steps do, one case for each way they can go. -/
inductive Step (s : RawRxSystem) : Act → RawRxSystem → Prop
  | receive (hc : s.caller = .idle) (hf : fn.InRange) :
    Step s (.receive fn) { s with caller := .loop fn [] }
  | receiveStep (h : ReceiveStep s t) : Step s .receiveStep t
  | startNone (hp : s.pump = .idle) (hd : s.buffer.done = false)
    (hw : s.buffer.fifo.writeStart = (f', none)) :
    Step s .readDataStart { s with buffer.fifo := f', pump := .idle }
  | startSome (hp : s.pump = .idle) (hd : s.buffer.done = false)
    (hw : s.buffer.fifo.writeStart = (f', some r)) :
    Step s .readDataStart { s with buffer.fifo := f', pump := .holding r }
  | again (hp : s.pump = .holding r) : Step s (.got .again) { s with pump := .idle }
  | closed (hp : s.pump = .holding r) (hres : res = .error ∨ res = .data 0) :
    Step s (.got res) { s with buffer.done := true, pump := .idle }
  | data (hp : s.pump = .holding r) (hm : n + 1 ≤ r.maxAmt) (hn : n + 1 ≤ s.incoming.length) :
    Step s (.got (.data (n + 1))) { s with
      pump := .got (n + 1), mem := s.mem.store r.ptr (s.incoming.take (n + 1))
      incoming := s.incoming.drop (n + 1), received := s.received ++ s.incoming.take (n + 1) }
  | complete (hp : s.pump = .got rval) : Step s .readDataComplete { s with
      buffer := s.buffer.readDataComplete rval, pump := .idle }

theorem receiveStep_cases {s t : RawRxSystem} (h : s.receiveStep = some t) : ReceiveStep s t := by
  cases hc : s.caller with
  | idle =>
    simp only [receiveStep, hc] at h
    cases h
  | loop fn out =>
    simp only [receiveStep, hc, Option.some.injEq] at h
    subst h
    split
    · next hlt => exact .enter hc (Bool.not_eq_true' _ ▸ hlt.1) hlt.2
    · next hge =>
      refine .finish hc ?_
      rw [not_and_or, Bool.not_eq_true', Bool.not_eq_false, Nat.not_lt] at hge
      exact hge
  | read fn out pc =>
    cases pc with
    | done bs =>
      simp only [receiveStep, hc, Option.some.injEq] at h
      subst h
      split
      · next hz =>
        obtain rfl := List.eq_nil_of_length_eq_zero hz
        exact .nothing hc
      · next hne => exact .goOn hc fun hb => hne (congrArg List.length hb)
    | loop bs =>
      simp only [receiveStep, hc, BlockFifo.readStep, Option.some.injEq] at h
      subst h
      split
      · next hlt =>
        rcases hr : s.buffer.fifo.readStart with ⟨f', p⟩
        cases p with
        | none => exact .empty hc hlt hr
        | some p => exact .look hc hlt hr
      · next hge => exact .full hc (Nat.le_of_not_lt hge)
    | copy bs p =>
      simp only [receiveStep, hc, BlockFifo.readStep, Option.some.injEq] at h
      exact h ▸ .copy hc rfl
    | copied bs amt =>
      simp only [receiveStep, hc, BlockFifo.readStep, Option.some.injEq] at h
      exact h ▸ .copied hc

theorem step_cases {s t : RawRxSystem} (h : s.step a = some t) : Step s a t := by
  cases a with
  | receive fn =>
    simp only [step] at h
    split at h
    · next hc =>
      split at h
      · next hf =>
        cases h
        exact .receive hc hf
      · cases h
    · cases h
  | receiveStep => exact .receiveStep (receiveStep_cases h)
  | readDataStart =>
    simp only [step] at h
    split at h
    · next hp =>
      split at h
      · cases h
      · next hd =>
        rcases hw : s.buffer.fifo.writeStart with ⟨f', buf⟩
        cases buf with
        | none =>
          simp only [SocketRxBuffer.readDataStart, hw, Option.some.injEq] at h
          exact h ▸ .startNone hp (Bool.not_eq_true _ ▸ hd) hw
        | some r =>
          simp only [SocketRxBuffer.readDataStart, hw, Option.some.injEq] at h
          exact h ▸ .startSome hp (Bool.not_eq_true _ ▸ hd) hw
    · cases h
  | got res =>
    simp only [step] at h
    split at h
    · next r hp =>
      rcases res with _ | _ | k
      · cases h
        exact .again hp
      · cases h
        exact .closed hp (.inl rfl)
      · dsimp only at h
        split at h
        · next hk =>
          cases h
          cases k with
          | zero =>
            rw [List.take_zero, List.drop_zero, List.append_nil, Mem.store_nil]
            exact .closed hp (.inr rfl)
          | succ n => exact .data hp hk.1 hk.2
        · cases h
    · cases h
  | readDataComplete =>
    simp only [step] at h
    split at h
    · next rval hp =>
      cases h
      exact .complete hp
    · cases h

end RawRxSystem
end Avs4000
