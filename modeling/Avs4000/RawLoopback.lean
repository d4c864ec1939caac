import Avs4000.Lib.Pipe
import Avs4000.RxBlocks
import Avs4000.TxAccounting

namespace Avs4000
open Memory BlockFifo
set_option autoImplicit true

namespace RawTxSystem

/-- No `Reset` overtakes a turn of the pump. -/
structure Steady (s : RawTxSystem) : Prop where
  books : Books 0 s
  attended : s.pump ≠ .idle → s.buffer.fifo.inBlk ≠ none

theorem Steady.producer {s t : RawTxSystem} (h : Steady s) (hs : Stores s t) : Steady t :=
  ⟨h.books.producer hs, hs.pump.symm ▸ hs.keeps.inBlk.symm ▸ h.attended⟩

theorem idle_attended {f : BlockFifo} (h : WriteDataPc.idle ≠ .idle) : f.inBlk ≠ none :=
  absurd rfl h

theorem step_steady {s t : RawTxSystem} (h : Steady s) (hf : a ≠ .flush)
    (hs : s.step a = some t) : Steady t := by
  cases a with
  | send data =>
    simp only [step] at hs
    split at hs
    · next hc =>
      split at hs
      · cases hs
        exact h.producer (enter_stores h.books.fifo hc data)
      · cases hs
    · cases hs
  | sendStep => exact h.producer (sendStep_stores h.books.fifo h.books.caller hs)
  | flush => exact absurd rfl hf
  | writeDataStart =>
    refine ⟨(h.books.writeDataStart hs).books, ?_⟩
    cases step_cases hs with
    | startNone => exact idle_attended
    | startSome hr =>
      have hreading := (readStart_cases h.books.fifo hr).2.2
      exact fun _ hn => absurd (hreading.1.symm.trans hn) (Option.some_ne_none _)
  | sent res =>
    have hbooks := (h.books.sent hs).books
    have hp : t.pump ≠ .idle → t.buffer.fifo.inBlk ≠ none := by
      cases step_cases hs with
      | again | closed => exact idle_attended
      | accepted hp hn =>
        refine fun _ => h.attended fun hidle => ?_
        cases hp.symm.trans hidle
    have hz : t.overtaken = 0 := by
      rw [overtaken, WriteDataPc.overtaken]
      split
      · next hi =>
        rw [of_not_not fun hn => hp hn hi]
        rfl
      · rfl
    exact ⟨(hz ▸ hbooks : Books (0 + 0) t), hp⟩
  | writeDataComplete =>
    refine ⟨(h.books.writeDataComplete hs).books, ?_⟩
    cases step_cases hs with
    | complete hp => exact idle_attended

theorem init_steady {b c : Nat} (hb : 0 < b) (hc : 0 < c) : Steady (init b c) where
  books := init_books hb hc
  attended := idle_attended

theorem step_wire {s t : RawTxSystem} (hs : Step s a t) : s.wire <+: t.wire := by
  cases hs with
  | accepted hp hn => exact List.prefix_append ..
  | sendStep hs =>
    cases hs with
    | _ => exact List.prefix_rfl
  | send | flush | startNone | startSome | again | closed | complete => exact List.prefix_rfl

theorem Steady.taken_eq {s : RawTxSystem} (h : Steady s) :
    s.taken = s.wire ++ s.stored.drop s.pump.inFlight := by
  obtain ⟨gone, _, htaken, hwire⟩ := h.books.bytes
  have hu : s.pump.unread s.buffer.fifo = s.pump.inFlight := by
    rw [WriteDataPc.unread]
    split
    · next hi =>
      rw [of_not_not fun hn => h.attended hn hi]
      rfl
    · rfl
  rw [htaken, hwire rfl, hu, List.append_assoc, List.take_append_drop]

end RawTxSystem

namespace RawRxSystem

/-- The same state with more to come. -/
def extend (pad : List UInt8) (s : RawRxSystem) : RawRxSystem :=
  { s with incoming := s.incoming ++ pad }

/-- What the receiver meets while `rest` of the bytes `all` has yet to be sent to it. -/
structure Receives (all rest : List UInt8) (s : RawRxSystem) : Prop where
  inv : Inv s
  stream : s.received ++ (s.incoming ++ rest) = all

theorem Receives.extend {s : RawRxSystem} (h : Receives all (w ++ rest) s) :
    Receives all rest (s.extend w) where
  inv := ⟨h.inv.fifo, h.inv.blocks, h.inv.caller, h.inv.queue, h.inv.done⟩
  stream := by
    rw [← h.stream, RawRxSystem.extend, List.append_assoc]

theorem step_stream {s t : RawRxSystem} (hs : Step s a t) :
    t.received ++ t.incoming = s.received ++ s.incoming := by
  cases hs with
  | data hp hm hn =>
    simp only [List.append_assoc, List.take_append_drop]
  | receiveStep hs =>
    cases hs with
    | _ => rfl
  | receive | startNone | startSome | again | closed | complete => rfl

theorem Receives.step {s t : RawRxSystem} (h : Receives all rest s) (hs : s.step a = some t) :
    Receives all rest t where
  inv := step_inv h.inv (step_cases hs)
  stream := by
    rw [← h.stream, ← List.append_assoc, step_stream (step_cases hs), List.append_assoc]

theorem PumpOk.length_late {f : BlockFifo} (h : PumpOk f m late pc) : late.length = pc.late := by
  cases pc with
  | idle => exact congrArg List.length h
  | holding r => exact congrArg List.length h.1
  | got rval =>
    obtain ⟨_, r, _, _, rfl⟩ := h
    exact Mem.length_load ..

/-- The bytes that lie in the ring, with those that the pump has yet to complete. -/
def queued (s : RawRxSystem) (late : List UInt8) : List UInt8 :=
  s.buffer.fifo.unread s.mem ++ s.buffer.fifo.filling s.mem ++ late

end RawRxSystem

/-- A sender whose socket is the other end of a receiver's, both without VITA-49 framing. -/
abbrev RawLoopback := Pipe RawTxSystem RawRxSystem

namespace RawLoopback

abbrev Act := Pipe.Act RawTxSystem.Act RawRxSystem.Act

def init (b c b' c' : Nat) : RawLoopback := ⟨.init b c, .init [] b' c'⟩

def step : RawLoopback → Act → Option RawLoopback :=
  Pipe.step RawTxSystem.step RawRxSystem.step (·.wire) RawRxSystem.extend

/-- Every byte taken by the sender is in one place of the chain, and they are in order: got by the
reader, in the ring of the receiver, received and not yet completed, on the way, or in the ring of
the sender. -/
theorem bytes_through {b c : Nat} (hb : 1 ≤ b) (hc : 2 ≤ c) (hb' : 1 ≤ b') (hc' : 2 ≤ c')
    (hf : ∀ a, .sender a ∈ acts → a ≠ .flush)
    (hr : Sys.run step (init b c b' c') acts = some s) :
    ∃ late, late.length = s.receiver.pump.late ∧
      s.sender.taken = s.receiver.obtained ++ (s.receiver.queued late ++ (s.receiver.incoming ++
        s.sender.stored.drop s.sender.pump.inFlight)) := by
  have hpos : 0 < c := Nat.lt_of_lt_of_le Nat.zero_lt_two hc
  have hpos' : 0 < c' := Nat.lt_of_lt_of_le Nat.zero_lt_two hc'
  obtain ⟨as, has, hrun⟩ := Pipe.run_sender hr
  have hsnd : ∀ a ∈ as, a ≠ .flush := fun a ha => hf a (has a ha)
  have hsteady : RawTxSystem.Steady s.sender := Sys.run_induction
    (fun _ _ _ h ha hs => RawTxSystem.step_steady h ha hs) (RawTxSystem.init_steady hb hpos)
    (Sys.along_of_forall hsnd _) hrun
  have hwire (u : RawLoopback) (a v) (_ : True) (_ : True)
      (hs : RawTxSystem.step u.sender a = some v) : True ∧ u.sender.wire <+: v.wire :=
    ⟨trivial, RawTxSystem.step_wire (RawTxSystem.step_cases hs)⟩
  have hstart : Pipe.Fed (·.wire) RawRxSystem.Receives (init b c b' c') := fun rest =>
    ⟨RawRxSystem.init_inv hb' hpos' [], rfl⟩
  have hfed : Pipe.Fed (·.wire) RawRxSystem.Receives s :=
    (Pipe.run_fed (I := RawRxSystem.Receives) (J := fun _ => True) hwire
      (fun _ _ _ _ h => h.extend) (fun _ _ _ _ _ h _ hs => h.step hs) trivial hstart
      (Sys.along_true ..) hr).2
  obtain ⟨hinv, hstream⟩ := hfed []
  obtain ⟨late, hlate, hq⟩ := hinv.queue
  refine ⟨late, hlate.length_late, ?_⟩
  replace hstream : s.receiver.received ++ (s.receiver.incoming ++ []) = s.sender.wire ++ [] :=
    hstream
  rw [List.append_nil, List.append_nil] at hstream
  rw [hsteady.taken_eq, ← hstream, hq, RawRxSystem.queued]
  simp only [List.append_assoc]

/-- A byte is sent. -/
def sendByte : List RawTxSystem.Act :=
  [.send [7], .sendStep, .sendStep, .sendStep, .sendStep, .sendStep, .sendStep, .writeDataStart,
    .sent (.accepted 1), .writeDataComplete]

/-- A byte is received and read. -/
def readByte : List RawRxSystem.Act :=
  [.readDataStart, .got (.data 1), .readDataComplete, .receive (.buffer 1), .receiveStep,
    .receiveStep, .receiveStep, .receiveStep, .receiveStep, .receiveStep]

theorem bytes_through_one : ∃ s,
    Sys.run step (init 1 2 1 2) (sendByte.map .sender ++ readByte.map .receiver) = some s ∧
    s.receiver.obtained = [7] ∧ ∃ late, s.sender.taken = s.receiver.obtained ++
      (s.receiver.queued late ++ (s.receiver.incoming ++
        s.sender.stored.drop s.sender.pump.inFlight)) := by
  obtain ⟨s, hs, ho⟩ : ∃ s,
      Sys.run step (init 1 2 1 2) (sendByte.map .sender ++ readByte.map .receiver) = some s ∧
      s.receiver.obtained = [7] := ⟨_, rfl, rfl⟩
  have hf : ∀ a, .sender a ∈ sendByte.map .sender ++ readByte.map Pipe.Act.receiver →
      a ≠ .flush := by
    simp [sendByte, readByte]
  have hone : 1 ≤ 1 := Nat.le_refl 1
  have htwo : 2 ≤ 2 := Nat.le_refl 2
  obtain ⟨late, _, h⟩ := bytes_through hone htwo hone htwo hf hs
  exact ⟨s, hs, ho, late, h⟩

end RawLoopback
end Avs4000
