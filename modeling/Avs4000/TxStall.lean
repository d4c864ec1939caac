import Avs4000.BlockSteps
import Avs4000.Lib.Run

namespace Avs4000
open Sys
set_option autoImplicit true

namespace SyncBlock
open TcpJSONClient AVS4000Client
variable {P : Type} {f : P → β}

/-- Whether neither `client` nor its signal client is null. -/
def hasSignal (d : Dir) (s : SyncBlock P) : Bool := (s.client.bind fun c => c.sig d).isSome

theorem follow_keeps (e : NullPointer) (p : Option α) :
    Keeps (fun s => f s.params) (follow e p : Op P α) := by
  cases p with
  | none => exact keeps_throw
  | some a => exact keeps_pure

theorem onClient_keeps (m : Api α) : Keeps (fun s => f s.params) (onClient m : Op P α) := by
  rw [onClient]
  apply keeps_get.bind
  intro s
  apply (follow_keeps .client _).bind
  intro c o s a t h
  cases h
  rfl

theorem updateOrWait_keeps (p : CommonParams) :
    Keeps (fun s => f s.params) (updateOrWait p : Op P Unit) := by
  rw [updateOrWait]
  split
  · apply (onClient_keeps _).bind
    intro _
    exact keeps_pure
  · apply (onClient_keeps _).bind
    intro count
    apply (onClient_keeps _).bind
    intro r
    exact keeps_modify fun s => rfl

theorem startUp_keeps (d : Dir) (p : CommonParams) (basePort : Int)
    (map : List (String × QVariant)) (startData : Calls CallResult) :
    Keeps (fun s => f s.params) (startUp d p basePort map startData : Op P Bool) := by
  rw [startUp]
  apply Keeps.bind
  · exact keeps_modify fun s => rfl
  intro _
  apply (onClient_keeps _).bind
  intro _
  apply (updateOrWait_keeps p).bind
  intro _
  apply (onClient_keeps _).bind
  intro r
  split
  · apply (onClient_keeps _).bind
    intro r
    split
    · apply (onClient_keeps _).bind
      intro r
      exact keeps_pure
    · exact keeps_pure
  · exact keeps_pure

theorem stop_keeps (d : Dir) : Keeps (fun s => f s.params) (SyncBlock.stop d : Op P Bool) := by
  have hlast (s : SyncBlock P) (rval : CallResult) : Keeps (fun s => f s.params) (do
      modify fun s => { s with later := s.later ++ s.client.toList, client := none }
      return rval.success : Op P Bool) := by
    apply Keeps.bind
    · exact keeps_modify fun s => rfl
    · intro _
      exact keeps_pure
  rw [SyncBlock.stop]
  apply keeps_get.bind
  intro s
  split
  · apply (onClient_keeps _).bind
    intro stopped
    dsimp only
    split
    · exact (onClient_keeps _).bind (hlast s)
    · exact keeps_pure.bind (hlast s)
  · exact keeps_pure

theorem setParam_keeps (h : ∀ p, f (assign p) = f p) :
    Keeps (fun s => f s.params) (setParam grp name ecode val assign : Op P Bool) := by
  rw [setParam]
  apply (onClient_keeps _).bind
  intro r
  split
  · apply Keeps.bind
    · exact keeps_modify fun s => h s.params
    · intro _
      exact keeps_pure
  · exact keeps_pure

end SyncBlock

namespace BlockSystem
open SyncBlock

theorem step_keeps {dev : Device P W S} {f : P → β} (hk : Keeps (fun s => f s.params) (a.op dev))
    (hs : step dev o s a = some t) : f t.block.params = f s.block.params := by
  rw [step] at hs
  split at hs
  · cases hs
  · split at hs
    · next hop =>
      cases hs
      exact hk _ _ _ _ hop
    · cases hs
      rfl

end BlockSystem

/-- A transmitter, with the calls of `work` in which `Send` has accepted nothing: those in a row
just before, since the last `start`, and those since the last call in which it accepted all. -/
structure TxStall where
  sys : BlockSystem TxParams
  zeros : Nat
  retries : Nat

/-- The bytes a call hands to `Send`. -/
def TxWork.bytes (w : TxWork) : Nat := TxBlock.samples w.noutputItems * TxBlock.bytesPerSample

namespace TxStall
open SyncBlock

abbrev Act := BlockSystem.Act TxWork TxSet

/-- The constructor of the block sets `txRetry`. -/
def init (params : TxParams) : TxStall := ⟨.init { params with txRetry := 0 }, 0, 0⟩

/-- The two numbers after an action. A call that finds no signal client does not send. -/
def count (s : TxStall) : Act → Nat × Nat
  | .start => (0, s.retries)
  | .work w =>
    if hasSignal .tx s.sys.block then
      (if w.rval = 0 then s.zeros + 1 else 0,
        if w.rval < w.bytes then if w.rval = 0 then s.retries + 1 else s.retries else 0)
    else (0, s.retries)
  | _ => (s.zeros, s.retries)

def step (o : Outside) (s : TxStall) (a : Act) : Option TxStall :=
  (BlockSystem.step avs4000tx o s.sys a).map fun sys => ⟨sys, (s.count a).1, (s.count a).2⟩

/-- A call returns -1 after sending. -/
def GivesUp (o : Outside) (s : TxStall) (w : TxWork) : Prop :=
  hasSignal .tx s.sys.block = true ∧
    ∃ t, Avs4000Tx.work w.noutputItems w.rval o s.sys.block = .ok (none, t)

/-- A call gives up only if nothing is accepted, as in the 20 calls before it at least. -/
def RealStall (o : Outside) (s : TxStall) : Act → Prop
  | .work w => GivesUp o s w → w.rval = 0 ∧ 20 ≤ s.zeros
  | _ => True

/-- When nothing is accepted, that has not happened 20 times since all was accepted, or it has
in the last 20 calls. -/
def CountsStall (s : TxStall) : Act → Prop
  | .work w => hasSignal .tx s.sys.block = true → w.rval = 0 → 0 < w.bytes →
      s.retries % 2 ^ 32 < 20 ∨ 20 ≤ s.zeros
  | _ => True

/-- The retry counter counts on over starts and over calls that make some progress. -/
def Counted (s : TxStall) : Prop := s.sys.block.params.txRetry = UInt32.ofNat s.retries

theorem work_none {s : SyncBlock TxParams} (h : hasSignal .tx s = false) (w : TxWork) :
    Avs4000Tx.work w.noutputItems w.rval o s = .ok (none, s) := by
  rcases s with ⟨params, updateCount, _ | ⟨host, dn, rxSig, _ | i⟩, later, requests, signals⟩
  · rfl
  · rfl
  · cases h

theorem work_sent {s : SyncBlock TxParams} (h : hasSignal .tx s = true) (w : TxWork) :
    Avs4000Tx.work w.noutputItems w.rval o s =
      let r := TxBlock.sent ⟨true, s.params.txRetry⟩ (TxBlock.samples w.noutputItems) w.rval
      .ok (r.2, { s with params := { s.params with txRetry := r.1.txRetry } }) := by
  rcases s with ⟨params, updateCount, _ | ⟨host, dn, rxSig, _ | i⟩, later, requests, signals⟩
  · cases h
  · cases h
  · rfl

theorem set_keeps (x : TxSet) : Keeps (fun s => s.params.txRetry) x.run := by
  cases x with
  | rate | txFreq | ducFreq | ducOutGain =>
    simp only [TxSet.run, Avs4000Tx.setRate, Avs4000Tx.setTxFreq, Avs4000Tx.setDUCFreq,
      Avs4000Tx.setDUCOutGain]
    apply setParam_keeps (f := TxParams.txRetry)
    intro p
    rfl

theorem start_keeps : Keeps (fun s => s.params.txRetry) Avs4000Tx.start := by
  rw [Avs4000Tx.start]
  apply keeps_get.bind
  intro s
  exact startUp_keeps (f := TxParams.txRetry) _ _ _ _ _

theorem sent_txRetry (b : TxBlock) (w : TxWork) :
    (b.sent (TxBlock.samples w.noutputItems) w.rval).1.txRetry =
      if w.rval < w.bytes then if w.rval = 0 then b.txRetry + 1 else b.txRetry else 0 := by
  change (if w.rval < w.bytes then _ else _ : TxBlock × Option Nat).1.txRetry = _
  split
  · split <;> rfl
  · rfl

theorem sent_none (b : TxBlock) (w : TxWork) :
    (b.sent (TxBlock.samples w.noutputItems) w.rval).2 = none ↔
      w.rval = 0 ∧ 0 < w.bytes ∧ 20 ≤ b.txRetry := by
  change (if w.rval < w.bytes then if w.rval = 0 then
    (_, if b.txRetry ≥ 20 then none else some _) else _ else _ : TxBlock × Option Nat).2 = none ↔ _
  split
  · next hlt =>
    split
    · next h0 =>
      rw [h0] at hlt
      dsimp only
      split
      · next hge => exact ⟨fun _ => ⟨h0, hlt, hge⟩, fun _ => rfl⟩
      · next hge => exact ⟨nofun, fun h => absurd h.2.2 hge⟩
    · next h0 => exact ⟨nofun, fun h => absurd h.1 h0⟩
  · next hge =>
    refine ⟨nofun, fun h => absurd ?_ hge⟩
    rw [h.1]
    exact h.2.1

theorem givesUp_iff (hs : Counted s) (w : TxWork) : GivesUp o s w ↔
    hasSignal .tx s.sys.block = true ∧ w.rval = 0 ∧ 0 < w.bytes ∧ 20 ≤ s.retries % 2 ^ 32 := by
  have hge : 20 ≤ s.sys.block.params.txRetry ↔ 20 ≤ s.retries % 2 ^ 32 := by
    rw [hs, UInt32.le_iff_toNat_le, UInt32.toNat_ofNat']
    rfl
  rw [← hge]
  apply and_congr_right
  intro hsig
  rw [work_sent hsig, ← sent_none ⟨true, s.sys.block.params.txRetry⟩ w]
  constructor
  · rintro ⟨t, h⟩
    exact (Prod.mk.inj (Except.ok.inj h)).1
  · intro h
    exact ⟨_, congrArg _ (Prod.ext h rfl)⟩

theorem step_work {s : BlockSystem TxParams} {w : TxWork}
    (h : BlockSystem.step avs4000tx o s (.work w) = some t) : t.block.params.txRetry =
      if hasSignal .tx s.block then
        if w.rval < w.bytes then
          if w.rval = 0 then s.block.params.txRetry + 1 else s.block.params.txRetry
        else 0
      else s.block.params.txRetry := by
  rw [BlockSystem.step] at h
  split at h
  · cases h
  · cases hsig : hasSignal .tx s.block with
    | false =>
      have hop : (BlockSystem.Act.work w).op avs4000tx o s.block = _ :=
        discard_of_ok (work_none hsig w)
      rw [hop] at h
      cases h
      rfl
    | true =>
      have hop : (BlockSystem.Act.work w).op avs4000tx o s.block = _ :=
        discard_of_ok (work_sent hsig w)
      rw [hop] at h
      cases h
      exact sent_txRetry ⟨true, s.block.params.txRetry⟩ w

theorem step_counted (hs : Counted s) (h : step o s a = some t) : Counted t := by
  obtain ⟨u, hu, rfl⟩ := Option.map_eq_some_iff.1 h
  change u.block.params.txRetry = UInt32.ofNat (s.count a).2
  cases a with
  | start =>
    refine (BlockSystem.step_keeps (f := TxParams.txRetry) ?_ hu).trans hs
    exact start_keeps.discard
  | stop =>
    refine (BlockSystem.step_keeps (f := TxParams.txRetry) ?_ hu).trans hs
    exact (stop_keeps .tx).discard
  | set x =>
    refine (BlockSystem.step_keeps (f := TxParams.txRetry) ?_ hu).trans hs
    exact (set_keeps x).discard
  | deleteLater =>
    refine (BlockSystem.step_keeps (f := TxParams.txRetry) ?_ hu).trans hs
    exact keeps_modify fun s => rfl
  | work w =>
    rw [step_work hu, hs, count]
    split
    · split
      · split
        · exact (UInt32.ofNat_add ..).symm
        · rfl
      · rfl
    · rfl

theorem realStall_iff (hs : Counted s) (a : Act) : RealStall o s a ↔ CountsStall s a := by
  cases a with
  | start | stop | set | deleteLater => exact Iff.rfl
  | work w =>
    rw [RealStall, CountsStall, givesUp_iff hs]
    constructor
    · intro h hsig h0 hpos
      by_cases hlt : s.retries % 2 ^ 32 < 20
      · exact .inl hlt
      · exact .inr (h ⟨hsig, h0, hpos, Nat.le_of_not_lt hlt⟩).2
    · intro h hgives
      obtain ⟨hsig, h0, hpos, hge⟩ := hgives
      rcases h hsig h0 hpos with hlt | hzeros
      · exact absurd hlt (Nat.not_lt.2 hge)
      · exact ⟨h0, hzeros⟩

/-- A transmitter gives up only after a real stall exactly if no start and no call that makes some
progress comes between those that are counted. -/
theorem gives_up_iff (o : Outside) (params : TxParams) (acts : List Act) :
    Along (step o) (RealStall o) (init params) acts ↔
      Along (step o) CountsStall (init params) acts := by
  have hinit : Counted (init params) := rfl
  exact along_congr (fun _ _ _ => step_counted) (fun _ a hs => realStall_iff hs a) hinit acts

/-- Of 22 calls in a row one makes progress, or the block is started again in between. -/
theorem progress_then_gives_up : ∃ o : Outside,
    ¬Along (step o) (RealStall o) (init .plain)
      (.start :: List.replicate 20 (.work ⟨4, 0⟩) ++ [.work ⟨4, 8⟩, .work ⟨4, 0⟩]) ∧
    ¬Along (step o) (RealStall o) (init .plain)
      (.start :: List.replicate 20 (.work ⟨4, 0⟩) ++ [.stop, .start, .work ⟨4, 0⟩]) := by
  refine ⟨.answering fun _ => .list [.bool true], ?_, ?_⟩
  · intro h
    have hlast := ((h.append.2 _ rfl).2 _ rfl).1 ⟨rfl, _, rfl⟩
    exact absurd hlast.2 (by decide)
  · intro h
    have hlast := (((h.append.2 _ rfl).2 _ rfl).2 _ rfl).1 ⟨rfl, _, rfl⟩
    exact absurd hlast.2 (by decide)

end TxStall
end Avs4000
