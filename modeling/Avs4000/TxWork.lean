import Avs4000.Lib.Memory
import Avs4000.Lib.Run

namespace Avs4000
open Memory
set_option autoImplicit true

structure GrComplex (α : Type) where
  real : α
  imag : α

/-- What `work` of `avs4000tx_impl` uses. `txSig` says that neither `client` nor `client->txSig`
is null. -/
structure TxBlock where
  txSig : Bool
  txRetry : UInt32

namespace TxBlock

def bufferSamples : Nat := 256 * 1024

def bytesPerSample : Nat := 2 * 2

/-- The number of items one call of `work` handles. -/
def samples (noutputItems : Nat) : Nat :=
  if noutputItems > bufferSamples then bufferSamples else noutputItems

/-- The bytes of an item: the Q word comes before the I word. -/
def tBuf (qint16 : α → UInt16) (z : GrComplex α) : List UInt8 :=
  toLE 2 (qint16 z.imag).toNat ++ toLE 2 (qint16 z.real).toNat

/-- The rest of `work`, after `Send` has returned `rval`, with what it returns, where `none`
is -1. -/
def sent (b : TxBlock) (samples rval : Nat) : TxBlock × Option Nat :=
  let bytes := samples * bytesPerSample
  if rval < bytes then
    if rval = 0 then
      ({ b with txRetry := b.txRetry + 1 }, if b.txRetry ≥ 20 then none else some samples)
    else (b, some samples)
  else ({ b with txRetry := 0 }, some samples)

/-- `work`, with `Send` as a function from the bytes it is given to the number it accepts. -/
def work (qint16 : α → UInt16) (b : TxBlock) (noutputItems : Nat) (inputItems : Nat → GrComplex α)
    (send : List UInt8 → Nat) : TxBlock × Option Nat :=
  if b.txSig then
    let data := (List.range (samples noutputItems)).flatMap fun i => tBuf qint16 (inputItems i)
    b.sent (samples noutputItems) (send data)
  else (b, none)

end TxBlock

/-- The block in a flowgraph that goes on as long as `work` does not return -1. `consumed` is the
number of items `work` has reported, `accepted` the bytes `Send` has accepted. -/
structure TxFlow where
  block : TxBlock
  consumed : Nat
  accepted : List UInt8

namespace TxFlow
open TxBlock

/-- A call of `work`, with the number of bytes `Send` accepts of those it is given. -/
structure Act where
  noutputItems : Nat
  rval : Nat

/-- `Send` accepts all it is given. -/
def Act.Full (a : Act) : Prop := a.rval = samples a.noutputItems * bytesPerSample

def init : TxFlow := ⟨⟨true, 0⟩, 0, []⟩

section
variable (qint16 : α → UInt16) (input : Nat → GrComplex α)

/-- The bytes of the first `n` items. -/
def encoded (n : Nat) : List UInt8 := (List.range n).flatMap fun i => tBuf qint16 (input i)

def step (s : TxFlow) (a : Act) : Option TxFlow :=
  let items := fun i => input (s.consumed + i)
  let data := encoded qint16 items (samples a.noutputItems)
  if 0 < a.noutputItems ∧ a.rval ≤ data.length then
    match s.block.work qint16 a.noutputItems items fun _ => a.rval with
    | (_, none) => none
    | (block, some n) => some ⟨block, s.consumed + n, s.accepted ++ data.take a.rval⟩
  else none

end

section
variable {qint16 : α → UInt16} {input : Nat → GrComplex α}

theorem length_encoded (n : Nat) : (encoded qint16 input n).length = n * bytesPerSample := by
  induction n with
  | zero => rfl
  | succ n ih =>
    rw [encoded, List.range_succ, List.flatMap_append, ← encoded, List.length_append, ih,
      Nat.succ_mul, List.flatMap_singleton, tBuf, List.length_append, length_toLE, length_toLE]
    rfl

theorem encoded_add (n k : Nat) :
    encoded qint16 input (n + k) =
      encoded qint16 input n ++ encoded qint16 (fun i => input (n + i)) k := by
  rw [encoded, List.range_add, List.flatMap_append, List.flatMap_map, encoded, encoded]

theorem work_some (h : TxBlock.work qint16 b n input send = (b', some k)) : k = samples n := by
  rw [work] at h
  split at h
  · simp only [sent] at h
    split at h
    · split at h
      · split at h
        · cases h
        · cases h
          rfl
      · cases h
        rfl
    · cases h
      rfl
  · cases h

theorem step_cases (h : step qint16 input s a = some t) :
    t.consumed = s.consumed + samples a.noutputItems ∧
      a.rval ≤ samples a.noutputItems * bytesPerSample ∧
      t.accepted = s.accepted ++ (encoded qint16 (fun i => input (s.consumed + i))
        (samples a.noutputItems)).take a.rval := by
  simp only [step] at h
  split at h
  · next ha =>
    split at h
    · cases h
    · next hw =>
      cases h
      rw [length_encoded] at ha
      exact ⟨congrArg (s.consumed + ·) (work_some hw), ha.2, rfl⟩
  · cases h

/-- Some call has reported items that were not all accepted. -/
def Short (s : TxFlow) : Prop := s.accepted.length ≠ s.consumed * bytesPerSample

/-- Never more is accepted than is reported, and without a short call it is the input. -/
structure Inv (qint16 : α → UInt16) (input : Nat → GrComplex α) (s : TxFlow) : Prop where
  le : s.accepted.length ≤ s.consumed * bytesPerSample
  encoded : ¬Short s → s.accepted = encoded qint16 input s.consumed

theorem step_short (hi : Inv qint16 input s) (h : step qint16 input s a = some t) :
    Short t ↔ Short s ∨ ¬a.Full := by
  obtain ⟨hc, hle, ha⟩ := step_cases h
  have hlen := congrArg List.length ha
  have hs := hi.le
  rw [List.length_append, List.length_take, length_encoded, Nat.min_eq_left hle] at hlen
  rw [Short, Short, Act.Full, hc, hlen, Nat.add_mul]
  omega

theorem step_inv (hi : Inv qint16 input s) (h : step qint16 input s a = some t) :
    Inv qint16 input t := by
  obtain ⟨hc, hle, ha⟩ := step_cases h
  refine ⟨?_, fun hn => ?_⟩
  · have hs := hi.le
    rw [ha, hc, List.length_append, List.length_take, length_encoded, Nat.min_eq_left hle,
      Nat.add_mul]
    omega
  · rw [step_short hi h, not_or, not_not] at hn
    have hall : (encoded qint16 (fun i => input (s.consumed + i)) (samples a.noutputItems)).length =
        samples a.noutputItems * bytesPerSample := length_encoded _
    rw [ha, hc, hi.encoded hn.1, encoded_add, show a.rval = _ from hn.2, ← hall, List.take_length]

theorem init_inv : Inv qint16 input init where
  le := Nat.le_refl 0
  encoded _ := rfl

/-- What is reported is what is accepted exactly if every `Send` accepts all it is given. -/
theorem reported_iff (hr : Sys.run (step qint16 input) init acts = some s) :
    s.consumed = s.accepted.length / 4 ∧ s.accepted = encoded qint16 input s.consumed ↔
      ∀ a ∈ acts, a.Full := by
  have hi : Inv qint16 input s := Sys.run_invariant (fun _ _ _ => step_inv) init_inv hr
  have hstart : ¬Short init := fun h => h rfl
  have hshort := Sys.not_iff_along (I := Inv qint16 input) (fun _ _ _ => step_inv)
    (fun _ _ _ => step_short) init_inv hstart hr
  rw [← Sys.along_iff_forall hr, ← hshort]
  constructor
  · intro h hs
    have hle := hi.le
    have heq := h.1
    rw [Short, bytesPerSample] at hs
    rw [bytesPerSample] at hle
    omega
  · intro hs
    have hlen := not_not.1 hs
    refine ⟨?_, hi.encoded hs⟩
    rw [hlen, bytesPerSample]
    omega

/-- Three calls of one, three and two items. -/
theorem reported_iff_three : ∃ s : TxFlow,
    Sys.run (step UInt16.ofNat fun k => ⟨k, k + 10⟩) init [⟨1, 4⟩, ⟨3, 12⟩, ⟨2, 8⟩] = some s ∧
      s.consumed = 6 ∧ s.consumed = s.accepted.length / 4 ∧
      s.accepted = encoded UInt16.ofNat (fun k => ⟨k, k + 10⟩) s.consumed := by
  have hfull : ∀ a ∈ [Act.mk 1 4, ⟨3, 12⟩, ⟨2, 8⟩], a.Full := by
    simp [Act.Full, samples, bufferSamples, bytesPerSample]
  obtain ⟨s, hs, hc⟩ : ∃ s : TxFlow, Sys.run (step UInt16.ofNat fun k => ⟨k, k + 10⟩) init
      [⟨1, 4⟩, ⟨3, 12⟩, ⟨2, 8⟩] = some s ∧ s.consumed = 6 := ⟨_, rfl, rfl⟩
  exact ⟨s, hs, hc, (reported_iff hs).2 hfull⟩

/-- A call reports an item of which nothing was accepted. -/
theorem item_dropped : ∃ s : TxFlow,
    Sys.run (step id fun _ => ⟨1, 2⟩) init [⟨1, 0⟩] = some s ∧
      s.consumed ≠ s.accepted.length / 4 :=
  ⟨_, rfl, Nat.one_ne_zero⟩

end
end TxFlow
end Avs4000
