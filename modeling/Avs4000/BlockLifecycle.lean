import Avs4000.BlockSteps
import Avs4000.Lib.Run

namespace Avs4000.BlockSystem
open Sys
set_option autoImplicit true

/-- A block as those see it that call it: started or not. -/
def lifecycle (started : Bool) : Act W S → Option Bool
  | .start => some true
  | .stop => some false
  | .work _ | .set _ | .deleteLater => some started

/-- What sets a parameter is called between `start` and `stop` only. -/
def SetWhenStarted (started : Bool) : Act W S → Prop
  | .set _ => started = true
  | .start | .stop | .work _ | .deleteLater => True

theorem Step.lifecycle (h : Step d o s t a) (hf : t.fault = none) :
    lifecycle s.block.client.isSome a = some t.block.client.isSome := by
  cases h with
  | start hs => exact congrArg some hs.isSome.symm
  | stop hc hs => exact congrArg (some ·.isSome) hs.client.symm
  | stopNull hc ht => exact congrArg (some ·.isSome) ((congrArg _ ht).trans hc).symm
  | work hs | set _ hs => exact congrArg (some ·.isSome) hs.client.symm
  | setNull _ _ hn => cases hn.symm.trans hf
  | deleteLater ht => exact congrArg (some ·.isSome) (congrArg SyncBlock.client ht).symm

theorem Step.fault_iff (h : Step d o s t a) :
    t.fault = none ↔ SetWhenStarted s.block.client.isSome a := by
  cases h with
  | start _ hf | stop _ _ hf | stopNull _ _ hf | work _ hf | deleteLater _ hf =>
    exact ⟨fun _ => trivial, fun _ => hf⟩
  | set hc _ hf => exact ⟨fun _ => hc, fun _ => hf⟩
  | setNull hc _ hf =>
    constructor
    · intro hn
      cases hf.symm.trans hn
    · intro hs
      change s.block.client.isSome = true at hs
      rw [hc] at hs
      cases hs

/-- Nothing is done to a block that has followed a null pointer. -/
theorem run_fault {dev : Device P W S} (hf : s.fault = some e)
    (hr : run (step dev o) s as = some t) : t = s := by
  cases as with
  | nil =>
    cases hr
    rfl
  | cons a as =>
    obtain ⟨u, hu, _⟩ := run_cons_eq_some.1 hr
    rw [step, hf] at hu
    cases hu

theorem fault_iff {dev : Device P W S} (hd : Device.Of dev d) (hf : s.fault = none)
    (hr : run (step dev o) s as = some t) :
    t.fault = none ↔ Along lifecycle SetWhenStarted s.block.client.isSome as := by
  induction as generalizing s with
  | nil =>
    cases hr
    exact ⟨fun _ => trivial, fun _ => hf⟩
  | cons a as ih =>
    obtain ⟨u, hu, hr⟩ := run_cons_eq_some.1 hr
    have hstep := step_cases hd hu
    cases hfu : u.fault with
    | none =>
      have hlife := hstep.lifecycle hfu
      rw [ih hfu hr]
      exact ⟨fun h => .cons (hstep.fault_iff.1 hfu) hlife h, fun h => h.2 _ hlife⟩
    | some e =>
      cases run_fault hfu hr
      rw [hstep.fault_iff]
      constructor
      · intro hs
        cases hfu.symm.trans (hstep.fault_iff.2 hs)
      · exact fun h => h.1

theorem run_exists {dev : Device P W S} (hd : Device.Of dev d) (hf : s.fault = none)
    (h : Along lifecycle SetWhenStarted s.block.client.isSome as) :
    ∃ t, run (step dev o) s as = some t := by
  induction as generalizing s with
  | nil => exact ⟨s, rfl⟩
  | cons a as ih =>
    obtain ⟨u, hu⟩ : ∃ u, step dev o s a = some u := by
      rw [step, hf]
      dsimp only
      split
      · exact ⟨_, rfl⟩
      · exact ⟨_, rfl⟩
    have hstep := step_cases hd hu
    have hfu := hstep.fault_iff.2 h.1
    obtain ⟨t, ht⟩ := ih hfu (h.2 _ (hstep.lifecycle hfu))
    exact ⟨t, run_cons_eq_some.2 ⟨u, hu, ht⟩⟩

/-- The blocks follow no null pointer exactly if no parameter is set before the first `start` or
after a `stop`. -/
theorem no_null_pointer_iff (o : Outside) :
    (∀ params acts s, run (step avs4000rx o) (init params) acts = some s →
      (s.fault = none ↔ Along lifecycle SetWhenStarted false acts)) ∧
    ∀ params acts s, run (step avs4000tx o) (init params) acts = some s →
      (s.fault = none ↔ Along lifecycle SetWhenStarted false acts) :=
  ⟨fun _ _ _ hr => fault_iff rx_of rfl hr, fun _ _ _ hr => fault_iff tx_of rfl hr⟩

/-- Both blocks are started, have their rate set and run, are stopped and run again. -/
theorem no_null_pointer_iff_restarted :
    let rxActs : List (Act RxWork RxSet) := [.start, .set (.rate (.ofUInt 100)),
      .work ⟨1, 1, []⟩, .stop, .work ⟨1, 1, []⟩, .deleteLater]
    let txActs : List (Act TxWork TxSet) := [.start, .set (.txFreq 0 (.ofUInt 100)),
      .work ⟨1, 4⟩, .stop, .work ⟨1, 4⟩, .deleteLater]
    let o := Outside.answering fun _ => .list [.bool true]
    (∃ s, run (step avs4000rx o) (init .plain) rxActs = some s ∧ s.fault = none) ∧
      ∃ s, run (step avs4000tx o) (init .plain) txActs = some s ∧ s.fault = none := by
  intro rxActs txActs o
  have hrx : Along lifecycle SetWhenStarted false rxActs :=
    .cons trivial rfl (.cons rfl rfl (along_of_always (by simp [SetWhenStarted]) _))
  have htx : Along lifecycle SetWhenStarted false txActs :=
    .cons trivial rfl (.cons rfl rfl (along_of_always (by simp [SetWhenStarted]) _))
  obtain ⟨s, hs⟩ := run_exists (s := init .plain) (o := o) rx_of rfl hrx
  obtain ⟨t, ht⟩ := run_exists (s := init .plain) (o := o) tx_of rfl htx
  exact ⟨⟨s, hs, ((no_null_pointer_iff o).1 _ _ _ hs).2 hrx⟩,
    t, ht, ((no_null_pointer_iff o).2 _ _ _ ht).2 htx⟩

/-- A frequency is set before the block is started. -/
theorem set_before_start : ∃ s, run (step avs4000rx (.answering fun _ => .list [.bool true]))
    (init .plain) [.set (.rxFreq 0 (.ofUInt 100))] = some s ∧ s.fault = some .client :=
  ⟨_, rfl, rfl⟩

end Avs4000.BlockSystem
