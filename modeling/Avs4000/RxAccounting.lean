import Avs4000.RawRxSystem

namespace Avs4000
open Memory
set_option autoImplicit true

/-- What was received and `Transferred` does not count yet. -/
def ReadDataPc.pending : ReadDataPc → Nat
  | .got rval => rval
  | _ => 0

namespace RawRxSystem

/-- How far `Transferred`, with what it is about to count, is ahead of what was received. -/
def surplus (s : RawRxSystem) : UInt64 :=
  s.buffer.transferred + UInt64.ofNat s.pump.pending - UInt64.ofNat s.received.length

theorem receiveStep_surplus {s t : RawRxSystem} (hs : ReceiveStep s t) : t.surplus = s.surplus := by
  cases hs with
  | enter | finish | nothing | goOn | look | empty | full | copy | copied => rfl

/-- The pump counts what it receives once, and `Receive` counts nothing. -/
theorem step_surplus {s t : RawRxSystem} (hs : s.step a = some t) : t.surplus = s.surplus := by
  cases step_cases hs with
  | receive => rfl
  | receiveStep hs => exact receiveStep_surplus hs
  | startNone hp | startSome hp | again hp | closed hp =>
    have hz : s.pump.pending = 0 := congrArg ReadDataPc.pending hp
    rw [surplus, surplus, hz]
    rfl
  | @data r n hp hm hn =>
    have hlen : (s.incoming.take (n + 1)).length = n + 1 := List.length_take_of_le hn
    rw [surplus, surplus, hp, List.length_append, hlen, UInt64.ofNat_add s.received.length]
    change s.buffer.transferred + UInt64.ofNat (n + 1) - _ = s.buffer.transferred + 0 - _
    grind
  | @complete rval hp =>
    rw [surplus, surplus, hp]
    exact congrArg (· - UInt64.ofNat s.received.length) (UInt64.add_zero _)

end RawRxSystem

/-- A buffer whose reader calls `Receive` or empties the regions of `ReceiveStart` itself. `held` is
the region between a `ReceiveStart` and its `ReceiveComplete`. `received` and `completed`, the sum
of the amounts completed, begin anew with each `Attach` or `Reset`, and `late` is what `::recv` had
returned by then and `ReadData` counts after it. -/
structure RxAccount where
  sys : RawRxSystem
  held : Option Region
  completed : Nat
  late : Nat

namespace RxAccount

def init (stream : List UInt8) (blkSize blkCount : Nat) : RxAccount :=
  ⟨.init stream blkSize blkCount, none, 0, 0⟩

inductive Act
  | receive (len : Nat)
  | receiveStep
  | receiveStart
  | receiveComplete (amt : Nat)
  | readDataStart
  | got (res : RecvResult)
  | readDataComplete
  | reset
  | attach (stream : List UInt8)
  | detach

/-- The reader is in no call and the pump in no turn of `ReadData`. -/
def Quiet (s : RxAccount) : Prop := s.sys.caller = .idle ∧ s.sys.pump = .idle

def lift (s : RxAccount) (a : RawRxSystem.Act) : Option RxAccount :=
  (s.sys.step a).map fun sys => { s with sys := sys }

def reset (s : RxAccount) : RxAccount :=
  { s with
    sys.buffer := s.sys.buffer.reset, sys.received := [], sys.calls := [], completed := 0
    late := s.sys.pump.pending }

/-- A region that was started is completed before the reader does anything else. `Reset`, `Attach`
and `Detach` come from the reader, and `Attach` waits for the end of the pump. -/
def step (s : RxAccount) : Act → Option RxAccount
  | .receive len =>
    match s.held with
    | none => s.lift (.receive (.buffer len))
    | some _ => none
  | .receiveStep => s.lift .receiveStep
  | .receiveStart =>
    match s.sys.caller, s.held with
    | .idle, none =>
      let (buffer, buf) := s.sys.buffer.receiveStart
      some { s with sys.buffer := buffer, held := buf }
    | _, _ => none
  | .receiveComplete amt => s.held.bind fun r =>
    if amt ≤ r.maxAmt then
      some { s with
        sys.buffer := s.sys.buffer.receiveComplete amt, held := none
        completed := s.completed + amt }
    else none
  | .readDataStart => s.lift .readDataStart
  | .got res => s.lift (.got res)
  | .readDataComplete => s.lift .readDataComplete
  | .reset =>
    match s.sys.caller, s.held with
    | .idle, none => some s.reset
    | _, _ => none
  | .attach stream =>
    match s.sys.caller, s.held, s.sys.pump with
    | .idle, none, .idle =>
      some { s.reset with sys.buffer.done := false, sys.incoming := stream }
    | _, _, _ => none
  | .detach =>
    match s.sys.caller, s.held with
    | .idle, none => some { s with sys.buffer.done := true }
    | _, _ => none

/-- `Transferred` is ahead by what was completed, and by what was received too early. -/
def Counted (s : RxAccount) : Prop := s.sys.surplus = UInt64.ofNat (s.completed + s.late)

theorem lift_counted (h : Counted s) (hs : s.lift a = some t) : Counted t := by
  obtain ⟨u, hu, rfl⟩ := Option.map_eq_some_iff.1 hs
  exact (RawRxSystem.step_surplus hu).trans h

theorem reset_counted (s : RxAccount) : Counted s.reset := by
  rw [Counted, reset, Nat.zero_add]
  change (0 : UInt64) + UInt64.ofNat s.sys.pump.pending - 0 = _
  rw [UInt64.zero_add, UInt64.sub_zero]

theorem step_counted (h : Counted s) (hs : step s a = some t) : Counted t := by
  cases a with
  | receive len =>
    simp only [step] at hs
    split at hs
    · exact lift_counted h hs
    · cases hs
  | receiveStep | readDataStart | got | readDataComplete => exact lift_counted h hs
  | receiveStart =>
    simp only [step] at hs
    split at hs
    · cases hs
      exact h
    · cases hs
  | receiveComplete amt =>
    obtain ⟨r, hr, hs⟩ := Option.bind_eq_some_iff.1 hs
    split at hs
    · cases hs
      rw [Counted, RawRxSystem.surplus] at h
      rw [Counted, RawRxSystem.surplus, Nat.add_right_comm, UInt64.ofNat_add (s.completed + s.late),
        ← h, SocketRxBuffer.receiveComplete]
      grind
    · cases hs
  | reset =>
    simp only [step] at hs
    split at hs
    · cases hs
      exact reset_counted s
    · cases hs
  | attach stream =>
    simp only [step] at hs
    split at hs
    · cases hs
      exact reset_counted s
    · cases hs
  | detach =>
    simp only [step] at hs
    split at hs
    · cases hs
      exact h
    · cases hs

theorem run_counted (hr : Sys.run step (init stream b c) acts = some s) : Counted s := by
  have hinit : Counted (init stream b c) := by
    change (0 : UInt64) + UInt64.ofNat 0 - UInt64.ofNat 0 = UInt64.ofNat 0
    decide
  exact Sys.run_invariant (fun _ _ _ h hs => step_counted h hs) hinit hr

/-- Between the operations of the two threads `Transferred` counts what was received exactly if
nothing was counted again by `ReceiveComplete`, and nothing late. -/
theorem counted_once_iff (hr : Sys.run step (init stream b c) acts = some s) (hq : s.Quiet) :
    s.sys.buffer.transferred = UInt64.ofNat s.sys.received.length ↔
      (s.completed + s.late) % 2 ^ 64 = 0 := by
  have h : s.sys.buffer.transferred + 0 - UInt64.ofNat s.sys.received.length =
      UInt64.ofNat (s.completed + s.late) := by
    have h := run_counted hr
    rwa [Counted, RawRxSystem.surplus, hq.2] at h
  have hzero : UInt64.ofNat (s.completed + s.late) = 0 ↔ (s.completed + s.late) % 2 ^ 64 = 0 :=
    UInt64.ofNat_eq_iff_mod_eq_toNat ..
  rw [← hzero, ← h, UInt64.add_zero]
  grind

/-- A `Reset` comes in front of `::recv`, and two of the bytes received after it are read. -/
theorem counted_once_iff_receive : ∃ s, Sys.run step (init [7, 8, 9] 2 2) ([.readDataStart, .reset,
      .got (.data 1), .readDataComplete, .readDataStart, .got (.data 2), .readDataComplete,
      .receive 2] ++ List.replicate 7 .receiveStep) = some s ∧
    s.sys.calls = [⟨.buffer 2, [8, 9]⟩] ∧ s.sys.received = [7, 8, 9] ∧
      s.sys.buffer.transferred = UInt64.ofNat s.sys.received.length := by
  obtain ⟨s, hs, hq, hcalls, hrec, hz⟩ : ∃ s, Sys.run step (init [7, 8, 9] 2 2)
      ([.readDataStart, .reset, .got (.data 1), .readDataComplete, .readDataStart, .got (.data 2),
      .readDataComplete, .receive 2] ++ List.replicate 7 .receiveStep) = some s ∧ s.Quiet ∧
      s.sys.calls = [⟨.buffer 2, [8, 9]⟩] ∧ s.sys.received = [7, 8, 9] ∧
      (s.completed + s.late) % 2 ^ 64 = 0 := ⟨_, rfl, ⟨rfl, rfl⟩, rfl, rfl, rfl⟩
  exact ⟨s, hs, hcalls, hrec, (counted_once_iff hs hq).2 hz⟩

/-- Two bytes are received and counted as four. -/
theorem completed_bytes_counted_twice : ∃ s, Sys.run step (init [7, 8] 2 2) [.readDataStart,
      .got (.data 2), .readDataComplete, .receiveStart, .receiveComplete 2] = some s ∧
    s.Quiet ∧ s.sys.received = [7, 8] ∧ s.sys.buffer.transferred = 4 ∧
      s.sys.buffer.transferred ≠ UInt64.ofNat s.sys.received.length := by
  obtain ⟨s, hs, hq, hrec, ht⟩ : ∃ s, Sys.run step (init [7, 8] 2 2) [.readDataStart,
      .got (.data 2), .readDataComplete, .receiveStart, .receiveComplete 2] = some s ∧
      s.Quiet ∧ s.sys.received = [7, 8] ∧ s.sys.buffer.transferred = 4 :=
    ⟨_, rfl, ⟨rfl, rfl⟩, rfl, rfl⟩
  refine ⟨s, hs, hq, hrec, ht, ?_⟩
  rw [hrec, ht]
  decide

end RxAccount
end Avs4000
