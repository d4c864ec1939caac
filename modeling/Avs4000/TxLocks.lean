import Avs4000.RawTxSystem

namespace Avs4000
open Memory BlockFifo
set_option autoImplicit true

/-- Where the pump stands in `ReadStart`. Each point but the first is in front of a stretch of code
that runs under `mutex`. -/
inductive ReadStartPc
  | outside
  | holds
  | wait
  | take
  | failed

/-- A system around a `SocketTxBuffer`, as far as its pump sees it. `hand` gives the pump the region
that `ReadStart` returns, and `result` is what an action reports of `::send`. -/
structure Pumped (σ α : Type) where
  step : σ → α → Option σ
  buffer : σ → SocketTxBuffer
  pump : σ → WriteDataPc
  hand : σ → BlockFifo → Region → σ
  isStart : α → Bool
  isReset : α → Bool
  result : α → Option SendResult

/-- The system with the pump's `ReadStart` at the grain of its locks. -/
structure TxLocks (σ : Type) where
  base : σ
  start : ReadStartPc

namespace TxLocks

def init (s : σ) : TxLocks σ := ⟨s, .outside⟩

inductive Act (α : Type)
  | readStart
  | readStep
  | base (a : α)

section
variable (P : Pumped σ α)

def fifo (s : TxLocks σ) : BlockFifo := (P.buffer s.base).fifo

/-- What the pump does next under the lock. With the assertions left out, `ReadStart` takes the
block at `tail` whatever became of the ring since the wait. -/
def readStep (s : TxLocks σ) : Option (TxLocks σ) :=
  let f := s.fifo P
  match s.start with
  | .outside | .failed => none
  | .holds =>
    match f.inBlk with
    | none => some { s with start := .failed }
    | some i => some ⟨P.hand s.base f
        ⟨(f.blk i).buf + (f.blk i).read, (f.blk i).len - (f.blk i).read⟩, .outside⟩
  | .wait => if f.empty then some { s with start := .outside } else some { s with start := .take }
  | .take => some ⟨P.hand s.base { f with inBlk := some f.tail }
      ⟨(f.blk f.tail).buf, (f.blk f.tail).len⟩, .outside⟩

/-- `ReadStart` looks at `inBlk` before it takes the lock. -/
def step (s : TxLocks σ) : Act α → Option (TxLocks σ)
  | .readStart =>
    match s.start, P.pump s.base with
    | .outside, .idle =>
      if (P.buffer s.base).done then none
      else some { s with start := if (s.fifo P).inBlk.isSome then .holds else .wait }
    | _, _ => none
  | .readStep => s.readStep P
  | .base a => if P.isStart a then none else (P.step s.base a).map fun u => { s with base := u }

/-- No `Reset` comes between the pump's look at `inBlk`, or the end of its wait, and the lock. -/
def Clear (s : TxLocks σ) : Act α → Prop
  | .base a => P.isReset a = true → s.start ≠ .holds ∧ s.start ≠ .take
  | _ => True

/-- `::send` returns 0 for nothing but an empty region. -/
def SendsSome (s : TxLocks σ) : Act α → Prop
  | .base a => P.result a = some (.accepted 0) → ∃ r, P.pump s.base = .holding r ∧ r.maxAmt = 0
  | _ => True

/-- What the pump found holds until it has the lock. -/
def Found (s : TxLocks σ) : Prop :=
  match s.start with
  | .outside => True
  | .holds => P.pump s.base = .idle ∧ (s.fifo P).inBlk ≠ none
  | .wait => P.pump s.base = .idle ∧ (s.fifo P).inBlk = none
  | .take => P.pump s.base = .idle ∧ (s.fifo P).inBlk = none ∧ 0 < (s.fifo P).count
  | .failed => False

/-- What a reset, or else any other step of the producer, makes of what the pump found. -/
def Leaves (reset : Bool) (f f' : BlockFifo) : Prop :=
  if reset then f'.inBlk = none else f'.inBlk = f.inBlk ∧ f.count ≤ f'.count

end

end TxLocks

/-- The steps of the system, and the region that `ReadStart` hands out, keep an invariant. -/
structure Pumped.Keeps (P : Pumped σ α) (I : σ → Prop) : Prop where
  fifo : ∀ s, I s → (P.buffer s).fifo.Inv
  step : ∀ s a t, I s → P.step s a = some t → I t
  hand : ∀ s f r, I s → P.pump s = .idle → (P.buffer s).fifo.readStart = (f, some r) →
    I (P.hand s f r)
  idle : ∀ s a t, I s → P.step s a = some t → P.isStart a = false → P.pump s = .idle →
    P.pump t = .idle ∧ TxLocks.Leaves (P.isReset a) (P.buffer s).fifo (P.buffer t).fifo

namespace TxLocks

theorem readStart_holds {f : BlockFifo} (h : f.inBlk = some i) : f.readStart =
    (f, some ⟨(f.blk i).buf + (f.blk i).read, (f.blk i).len - (f.blk i).read⟩) := by
  rw [BlockFifo.readStart, h]

theorem readStart_take {f : BlockFifo} (h : f.inBlk = none) (he : ¬f.empty) : f.readStart =
    ({ f with inBlk := some f.tail }, some ⟨(f.blk f.tail).buf, (f.blk f.tail).len⟩) := by
  rw [BlockFifo.readStart, h]
  exact if_neg he

variable {P : Pumped σ α} {I : σ → Prop}

theorem readStep_keeps (hP : P.Keeps I) (h : I s.base) (hf : Found P s)
    (hs : s.readStep P = some t) : I t.base ∧ Found P t := by
  have hfifo := hP.fifo s.base h
  cases hstart : s.start with
  | outside | failed =>
    simp only [readStep, hstart] at hs
    cases hs
  | holds =>
    simp only [Found, hstart] at hf
    obtain ⟨hidle, hne⟩ := hf
    obtain ⟨i, hi⟩ := Option.ne_none_iff_exists'.1 hne
    simp only [readStep, hstart, hi, Option.some.injEq] at hs
    subst hs
    exact ⟨hP.hand _ _ _ h hidle (readStart_holds hi), trivial⟩
  | wait =>
    simp only [Found, hstart] at hf
    simp only [readStep, hstart] at hs
    split at hs
    · cases hs
      exact ⟨h, trivial⟩
    · next he =>
      cases hs
      exact ⟨h, hf.1, hf.2, Nat.pos_of_ne_zero fun hz => he (hfifo.empty_iff.2 hz)⟩
  | take =>
    simp only [Found, hstart] at hf
    obtain ⟨hidle, hn, hpos⟩ := hf
    simp only [readStep, hstart, Option.some.injEq] at hs
    subst hs
    have hne : ¬(s.fifo P).empty := fun he => Nat.ne_of_gt hpos (hfifo.empty_iff.1 he)
    exact ⟨hP.hand _ _ _ h hidle (readStart_take hn hne), trivial⟩

/-- What the pump found is still there after a step of the producer. -/
theorem base_found (hP : P.Keeps I) (h : I s.base) (hf : Found P s) (hc : Clear P s (.base a))
    (hst : P.isStart a = false) (hs : P.step s.base a = some u) :
    Found P { s with base := u } := by
  have hidle := fun hi => hP.idle s.base a u h hs hst hi
  cases hstart : s.start with
  | outside => simp only [Found]
  | failed =>
    rw [Found, hstart] at hf
    exact hf.elim
  | wait =>
    simp only [Found, hstart] at hf ⊢
    obtain ⟨hu, hl⟩ := hidle hf.1
    refine ⟨hu, ?_⟩
    rw [Leaves] at hl
    split at hl
    · exact hl
    · exact hl.1.trans hf.2
  | holds =>
    simp only [Found, hstart] at hf ⊢
    obtain ⟨hu, hl⟩ := hidle hf.1
    have hr : ¬P.isReset a = true := fun hr => (hc hr).1 hstart
    rw [Leaves, if_neg hr] at hl
    exact ⟨hu, fun hn => hf.2 (hl.1.symm.trans hn)⟩
  | take =>
    simp only [Found, hstart] at hf ⊢
    obtain ⟨hu, hl⟩ := hidle hf.1
    have hr : ¬P.isReset a = true := fun hr => (hc hr).2 hstart
    rw [Leaves, if_neg hr] at hl
    exact ⟨hu, hl.1.trans hf.2.1, Nat.lt_of_lt_of_le hf.2.2 hl.2⟩

theorem step_keeps (hP : P.Keeps I) (h : I s.base ∧ Found P s) (hc : Clear P s a)
    (hs : step P s a = some t) : I t.base ∧ Found P t := by
  obtain ⟨h, hf⟩ := h
  cases a with
  | readStart =>
    simp only [step] at hs
    split at hs
    · next hstart hidle =>
      split at hs
      · cases hs
      · cases hs
        refine ⟨h, ?_⟩
        cases hi : (s.fifo P).inBlk with
        | none => exact ⟨hidle, hi⟩
        | some i => exact ⟨hidle, fun hn => Option.some_ne_none i (hi.symm.trans hn)⟩
    · cases hs
  | readStep => exact readStep_keeps hP h hf hs
  | base a =>
    simp only [step] at hs
    split at hs
    · cases hs
    · next hst =>
      obtain ⟨u, hu, rfl⟩ := Option.map_eq_some_iff.1 hs
      exact ⟨hP.step _ _ _ h hu, base_found hP h hf hc (Bool.not_eq_true _ ▸ hst) hu⟩

theorem run_keeps (hP : P.Keeps I) (h : I s) (hc : Sys.Along (step P) (Clear P) (init s) acts)
    (hr : Sys.run (step P) (init s) acts = some t) : I t.base := by
  have hinit : I (init s).base ∧ Found P (init s) := ⟨h, trivial⟩
  exact (Sys.run_induction (fun _ _ _ h hc hs => step_keeps hP h hc hs) hinit hc hr).1

end TxLocks

/-- What makes the pump stop. -/
structure Pumped.Stops (P : Pumped σ α) : Prop where
  step : ∀ s a t, P.step s a = some t → (P.buffer t).done = true → (P.buffer s).done = true ∨
    P.result a = some .error ∨ P.result a = some (.accepted 0)
  hand : ∀ s f r, (P.buffer (P.hand s f r)).done = (P.buffer s).done

namespace TxLocks
variable {P : Pumped σ α} {I : σ → Prop}

theorem step_stops (hP : P.Stops) (hs : step P s a = some t) (hd : (P.buffer t.base).done = true) :
    (P.buffer s.base).done = true ∨ ∃ b, a = .base b ∧
      (P.result b = some .error ∨ P.result b = some (.accepted 0)) := by
  cases a with
  | readStart =>
    simp only [step] at hs
    split at hs
    · split at hs
      · cases hs
      · cases hs
        exact .inl hd
    · cases hs
  | readStep =>
    left
    simp only [step, readStep] at hs
    split at hs
    · cases hs
    · cases hs
    · split at hs <;> cases hs
      · exact hd
      · exact (hP.hand ..).symm.trans hd
    · split at hs <;> cases hs <;> exact hd
    · cases hs
      exact (hP.hand ..).symm.trans hd
  | base b =>
    simp only [step] at hs
    split at hs
    · cases hs
    · obtain ⟨u, hu, rfl⟩ := Option.map_eq_some_iff.1 hs
      exact (hP.step _ _ _ hu hd).imp_right fun h => ⟨b, rfl, h⟩

/-- As long as no `Reset` falls into `ReadStart`, every `::send` is given something to send, and the
pump stops at nothing but an error of the socket. -/
theorem run_sends (hP : P.Keeps I) (hS : P.Stops)
    (hpos : ∀ s r, I s → P.pump s = .holding r → 0 < r.maxAmt) (h : I s)
    (hd : (P.buffer s).done = false) (hc : Sys.Along (step P) (Clear P) (init s) acts)
    (hr : Sys.run (step P) (init s) acts = some t) :
    (∀ r, P.pump t.base = .holding r → 0 < r.maxAmt) ∧
      (Sys.Along (step P) (SendsSome P) (init s) acts → (P.buffer t.base).done = true →
        ∃ b, .base b ∈ acts ∧ P.result b = some .error) := by
  refine ⟨fun r => hpos _ r (run_keeps hP h hc hr), fun hz hdone => ?_⟩
  by_contra hn
  rw [not_exists] at hn
  have hnone : Sys.Along (step P) (fun _ a => ∀ b, a = .base b → P.result b ≠ some .error)
      (init s) acts := by
    refine Sys.along_of_forall (fun a ha b hb he => ?_) _
    exact hn b ⟨hb ▸ ha, he⟩
  have hinit : (I (init s).base ∧ Found P (init s)) ∧ (P.buffer (init s).base).done = false :=
    ⟨⟨h, trivial⟩, hd⟩
  have hend := Sys.run_induction (I := fun t => (I t.base ∧ Found P t) ∧
    (P.buffer t.base).done = false) ?_ hinit ((hc.and hz).and hnone) hr
  · exact absurd (hend.2.symm.trans hdone) Bool.false_ne_true
  rintro u a v ⟨hu, hdu⟩ ⟨⟨hc, hz⟩, hne⟩ hs
  refine ⟨step_keeps hP hu hc hs, Bool.eq_false_iff.2 fun hdv => ?_⟩
  rcases step_stops hS hs hdv with hdu' | ⟨b, rfl, he | he⟩
  · exact absurd (hdu.symm.trans hdu') Bool.false_ne_true
  · exact hne b rfl he
  · obtain ⟨r, hp, hr0⟩ := hz he
    exact Nat.ne_of_gt (hpos _ r hu.1 hp) hr0

end TxLocks

namespace RawTxSystem

def pumped : Pumped RawTxSystem Act where
  step := step
  buffer := buffer
  pump := pump
  hand := hand
  isStart a := match a with
    | .writeDataStart => true
    | _ => false
  isReset a := match a with
    | .flush => true
    | _ => false
  result a := match a with
    | .sent res => some res
    | _ => none

theorem pumped_keeps : pumped.Keeps Inv where
  fifo s h := h.fifo
  step s a t h hs := step_inv h (step_cases hs)
  hand s f r h _ hr := h.hand hr
  idle s a t h hs hst hp := by
    cases step_cases hs with
    | send | again | closed => exact ⟨by first | exact hp | rfl, rfl, Nat.le_refl _⟩
    | sendStep hs =>
      obtain ⟨hk, hpump⟩ := sendStep_keeps h hs
      exact ⟨hpump.trans hp, hk.inBlk, hk.count⟩
    | flush => exact ⟨hp, rfl⟩
    | startNone | startSome => cases hst
    | accepted hh | complete hh => cases hp.symm.trans hh

theorem pumped_stops : pumped.Stops where
  step s a t hs hd := by
    refine (step_done (step_cases hs) hd).imp_right fun ha => ?_
    exact ha.imp (congrArg pumped.result) (congrArg pumped.result)
  hand _ _ _ := rfl

theorem send_block {data : List UInt8} (hlen : data.length = b) (hb : 0 < b) (hlt : b < 2 ^ 32) :
    ∃ s, Sys.run step (init b 64) (.send data :: List.replicate 7 .sendStep) = some s ∧
      s.caller = .idle ∧ s.pump = .idle ∧ s.buffer.done = false ∧
      s.buffer.fifo.inBlk = none ∧ ¬s.buffer.fifo.empty := by
  obtain ⟨n, rfl⟩ := Nat.exists_eq_add_one.2 hb
  let f := BlockFifo.new (n + 1) 64
  let p : Region := ⟨⟨0, 0⟩, n + 1⟩
  have hw : f.writeStart = (f.writeStart.1, some p) := rfl
  have hpos : 0 < data.length := hlen ▸ Nat.succ_pos n
  have hamt : turnAmt data.length p.maxAmt = n + 1 := by
    rw [hlen]
    exact if_neg (Nat.lt_irrefl _)
  let s₀ := init (n + 1) 64
  let s₁ := { s₀ with caller := .loop data 0 }
  have h₁ : step s₀ (.send data) = some s₁ := if_pos ⟨hpos, hlen ▸ hlt⟩
  let s₂ := { s₀ with caller := .write data 0 (.loop 0) }
  have h₂ : step s₁ .sendStep = some s₂ := by
    simp only [step, sendStep, s₁, hpos, and_true]
    rfl
  let s₃ := { s₀ with buffer.fifo := f.writeStart.1, caller := .write data 0 (.copy 0 p) }
  have h₃ : step s₂ .sendStep = some s₃ := by
    simp only [step, sendStep, s₂, writeStep, List.drop_zero, hpos, if_true]
    rfl
  let s₄ := { s₃ with mem := s₃.mem.store p.ptr (data.take (n + 1)),
                      caller := .write data 0 (.copied 0 (n + 1)) }
  have h₄ : step s₃ .sendStep = some s₄ := by
    simp only [step, sendStep, s₃, writeStep, List.drop_zero, Nat.sub_zero, hamt]
    rfl
  let s₅ := { s₄ with buffer.fifo := s₄.buffer.fifo.writeComplete (n + 1),
                      caller := .write data 0 (.loop (n + 1)) }
  have h₅ : step s₄ .sendStep = some s₅ := by
    simp only [step, sendStep, s₄, writeStep, Nat.zero_add]
    rfl
  let s₆ := { s₅ with caller := .write data 0 (.done (n + 1)) }
  have h₆ : step s₅ .sendStep = some s₆ := by
    simp only [step, sendStep, s₅, writeStep, List.drop_zero, hlen, Nat.lt_irrefl, if_false]
    rfl
  let s₇ := { s₅ with caller := .loop data (n + 1) }
  have h₇ : step s₆ .sendStep = some s₇ := by
    simp only [step, sendStep, s₆, Nat.succ_ne_zero, if_false, Nat.zero_add]
    rfl
  let s₈ := s₇.ret data (n + 1)
  have h₈ : step s₇ .sendStep = some s₈ := by
    simp only [step, sendStep, s₇, hlen, Nat.lt_irrefl, and_false, if_false]
    rfl
  refine ⟨s₈, ?_, rfl, rfl, rfl, ?_, ?_⟩
  · simp only [Sys.run, List.replicate, h₁, h₂, h₃, h₄, h₅, h₆, h₇, h₈, Option.bind_some, s₀]
  · simp [s₈, ret, s₇, s₅, s₄, s₃, f, s₀, writeComplete, writeStart, BlockFifo.new, setBlk, full,
      pinc, Block.reset]
  · simp [s₈, ret, s₇, s₅, s₄, s₃, f, s₀, writeComplete, writeStart, BlockFifo.new, setBlk, full,
      empty, pinc, Block.reset]

end RawTxSystem

namespace TxSystem

def pumped : Pumped TxSystem Act where
  step := step
  buffer s := s.client.buffer
  pump := pump
  hand := hand
  isStart a := match a with
    | .writeDataStart => true
    | _ => false
  isReset a := match a with
    | .flush => true
    | _ => false
  result a := match a with
    | .sent res => some res
    | _ => none

theorem pumped_keeps : pumped.Keeps fun s => Inv s ∧ Sends s where
  fifo s h := h.1.fifo
  step s a t h hs := ⟨step_inv h.1 (step_cases hs), step_sends h.1 h.2 (step_cases hs)⟩
  hand s f r h _ hr := ⟨h.1.hand hr, h.2.hand h.1.fifo hr⟩
  idle s a t h hs hst hp := by
    cases step_cases hs with
    | send => exact ⟨hp, rfl, Nat.le_refl _⟩
    | sendStep junk hs =>
      obtain ⟨hk, hpump⟩ := sendStep_keeps h.1 hs
      exact ⟨hpump.trans hp, hk.inBlk, hk.count⟩
    | flush => exact ⟨hp, rfl⟩
    | startNone | startSome => cases hst
    | again hh | closed hh | accepted hh | complete hh => cases hp.symm.trans hh

theorem pumped_stops : pumped.Stops where
  step s a t hs hd := by
    refine (step_done (step_cases hs) hd).imp_right fun ha => ?_
    exact ha.imp (congrArg pumped.result) (congrArg pumped.result)
  hand _ _ _ := rfl

end TxSystem

namespace TxLocks

theorem mem_sent {acts : List (Act α)} {f : α → Option SendResult} {sent : SendResult → α}
    (hf : ∀ b res, f b = some res → b = sent res)
    (h : ∃ b, .base b ∈ acts ∧ f b = some .error) : .base (sent .error) ∈ acts := by
  obtain ⟨b, hb, he⟩ := h
  exact hf b _ he ▸ hb

/-- In both modes, as long as no `Flush` falls between the pump's look at the ring and the lock that
`ReadStart` takes for it, every `::send` is given something to send, and the pump stops at nothing
but an error of the socket. -/
theorem sends_unless_flushed {b c : Nat} (hb : 1 ≤ b) (hc : 2 ≤ c) :
    (∀ acts s, Sys.Along (step RawTxSystem.pumped) (Clear RawTxSystem.pumped)
        (init (.init b c)) acts →
      Sys.run (step RawTxSystem.pumped) (init (.init b c)) acts = some s →
      (∀ r, s.base.pump = .holding r → 0 < r.maxAmt) ∧
        (Sys.Along (step RawTxSystem.pumped) (SendsSome RawTxSystem.pumped)
            (init (.init b c)) acts →
          s.base.buffer.done = true → .base (.sent .error) ∈ acts)) ∧
      (0x2000 ≤ b → ∀ dn acts s, Sys.Along (step TxSystem.pumped) (Clear TxSystem.pumped)
          (init (.init dn b c)) acts →
        Sys.run (step TxSystem.pumped) (init (.init dn b c)) acts = some s →
        (∀ r, s.base.pump = .holding r → 0 < r.maxAmt) ∧
          (Sys.Along (step TxSystem.pumped) (SendsSome TxSystem.pumped)
              (init (.init dn b c)) acts →
            s.base.client.buffer.done = true → .base (.sent .error) ∈ acts)) := by
  have hc : 0 < c := Nat.zero_lt_of_lt hc
  refine ⟨fun acts s hclear hr => ?_, fun hb dn acts s hclear hr => ?_⟩
  · obtain ⟨hpos, hstop⟩ := run_sends RawTxSystem.pumped_keeps RawTxSystem.pumped_stops
      (fun s r h => h.holding r) (RawTxSystem.init_inv hb hc) rfl hclear hr
    refine ⟨hpos, fun hz hd => mem_sent (fun a res ha => ?_) (hstop hz hd)⟩
    cases a <;> cases ha
    rfl
  · have hinit : TxSystem.Inv (.init dn b c) :=
      TxSystem.init_inv (Nat.lt_of_lt_of_le (by decide) hb) hc
    obtain ⟨hpos, hstop⟩ := run_sends TxSystem.pumped_keeps TxSystem.pumped_stops
      (fun s r h => h.2.pump r) ⟨hinit, TxSystem.init_sends dn hb c⟩ rfl hclear hr
    refine ⟨hpos, fun hz hd => mem_sent (fun a res ha => ?_) (hstop hz hd)⟩
    cases a <;> cases ha
    rfl

/-- A `Flush` comes while the pump waits, then two bytes are sent one at a time until the socket
fails. -/
theorem sends_unless_flushed_waiting :
    let P := RawTxSystem.pumped
    let acts := [.readStart, .base .flush, .base (.send [7, 8])] ++
      List.replicate 7 (.base .sendStep) ++ [.readStep, .readStep, .base (.sent (.accepted 1)),
      .base .writeDataComplete, .readStart, .readStep, .base (.sent .error)]
    ∃ s, Sys.run (step P) (init (.init 2 3)) acts = some s ∧ s.base.wire = [7] ∧
      s.base.buffer.done = true ∧ .base (.sent .error) ∈ acts := by
  intro P acts
  have hrun : (Sys.run (step P) (init (.init 2 3)) acts).map
      (fun s => (s.base.wire, s.base.buffer.done)) = some ([7], true) := by decide +kernel
  obtain ⟨s, hs, hs'⟩ := Option.map_eq_some_iff.1 hrun
  obtain ⟨hw, hd⟩ := Prod.mk.inj hs'
  have hclear : Sys.Along (step P) (Clear P) (init (.init 2 3)) acts := by
    refine .cons trivial rfl (.cons ?_ rfl (Sys.along_of_always ?_ _))
    · simp [Clear, fifo, init, P, RawTxSystem.pumped, RawTxSystem.init, SocketTxBuffer.new,
        BlockFifo.new]
    · simp [Clear, P, RawTxSystem.pumped]
  have hsome : Sys.Along (step P) (SendsSome P) (init (.init 2 3)) acts := by
    refine Sys.along_of_always ?_ _
    simp [acts, SendsSome, P, RawTxSystem.pumped]
  have hstop := ((sends_unless_flushed (by decide) (by decide)).1 acts s hclear hs).2 hsome hd
  exact ⟨s, hs, hw, hd, hstop⟩

theorem run_base {P : Pumped σ α} (hst : ∀ a ∈ as, P.isStart a = false)
    (hr : Sys.run P.step s as = some t) (pc : ReadStartPc) :
    Sys.run (step P) ⟨s, pc⟩ (as.map .base) = some ⟨t, pc⟩ := by
  induction as generalizing s with
  | nil =>
    cases hr
    rfl
  | cons a as ih =>
    obtain ⟨u, hu, hr⟩ := Sys.run_cons_eq_some.1 hr
    have ha : step P ⟨s, pc⟩ (.base a) = some ⟨u, pc⟩ := by
      simp only [step, hst a (List.mem_cons_self ..), hu, Option.map_some, Bool.false_eq_true,
        if_false]
    exact Sys.run_cons_eq_some.2 ⟨_, ha, ih (fun b hb => hst b (List.mem_cons_of_mem _ hb)) hr⟩

/-- The pump finds the ring filled, and a `Flush` empties it before the pump has the lock. -/
def flushed : List (Act RawTxSystem.Act) := [.readStart, .readStep, .base .flush, .readStep]

theorem run_flushed {s : RawTxSystem} (h : RawTxSystem.Inv s) (hc : s.caller = .idle)
    (hp : s.pump = .idle) (hd : s.buffer.done = false) (hi : s.buffer.fifo.inBlk = none)
    (he : ¬s.buffer.fifo.empty) :
    ∃ t, Sys.run (step RawTxSystem.pumped) (init s) flushed = some t ∧
      t.base.pump = .holding ⟨⟨0, 0⟩, 0⟩ := by
  let P := RawTxSystem.pumped
  let f := s.buffer.fifo.reset
  have h₁ : step P (init s) .readStart = some ⟨s, .wait⟩ := by
    simp [step, P, init, fifo, RawTxSystem.pumped, hp, hd, hi]
  have h₂ : step P ⟨s, .wait⟩ .readStep = some ⟨s, .take⟩ := if_neg he
  let u := { s with buffer := s.buffer.reset }
  have h₃ : step P ⟨s, .take⟩ (.base .flush) = some ⟨u, .take⟩ := by
    simp [step, P, RawTxSystem.pumped, RawTxSystem.step, hc, u]
  let v := u.hand { f with inBlk := some 0 } ⟨(f.blk 0).buf, (f.blk 0).len⟩
  have h₄ : step P ⟨u, .take⟩ .readStep = some ⟨v, .outside⟩ := rfl
  have hblk : f.blk 0 = (s.buffer.fifo.blk 0).reset :=
    if_pos (Nat.zero_lt_of_lt h.fifo.tail_lt)
  refine ⟨⟨v, .outside⟩, ?_, ?_⟩
  · simp only [flushed, Sys.run, h₁, h₂, h₃, h₄, Option.bind_some, P]
  · simp only [v, RawTxSystem.hand, hblk, Block.reset, h.fifo.buf]

theorem sent_zero {s : TxLocks RawTxSystem} (hp : s.base.pump = .holding r) : ∃ t,
    step RawTxSystem.pumped s (.base (.sent (.accepted 0))) = some t ∧
      t.base.buffer.done = true := by
  let u := { s.base with
    buffer.done := true, pump := .idle, wire := s.base.wire ++ s.base.mem.load r.ptr 0 }
  have hu : RawTxSystem.step s.base (.sent (.accepted 0)) = some u := by
    simp only [RawTxSystem.step, hp, SocketTxBuffer.writeDataSent, Nat.zero_le, if_true, u]
  refine ⟨⟨u, s.start⟩, ?_, rfl⟩
  change (RawTxSystem.step s.base (.sent (.accepted 0))).map _ = _
  rw [hu, Option.map_some]

theorem block_stops {data : List UInt8} (hlen : data.length = b) (hb : 0 < b)
    (hlt : b < 2 ^ 32) :
    let P := RawTxSystem.pumped
    let block := .send data :: List.replicate 7 .sendStep
    ∃ s t, Sys.run (step P) (init (.init b 64)) (block.map .base ++ flushed) = some s ∧
      s.base.pump = .holding ⟨⟨0, 0⟩, 0⟩ ∧ SendsSome P s (.base (.sent (.accepted 0))) ∧
      step P s (.base (.sent (.accepted 0))) = some t ∧ t.base.buffer.done = true := by
  intro P block
  obtain ⟨s, hs, hc, hp, hd, hi, he⟩ := RawTxSystem.send_block hlen hb hlt
  have h : RawTxSystem.Inv s := by
    refine Sys.run_invariant (fun _ _ _ h hs => ?_) (RawTxSystem.init_inv hb (by decide)) hs
    exact RawTxSystem.step_inv h (RawTxSystem.step_cases hs)
  obtain ⟨t, ht, hpt⟩ := run_flushed h hc hp hd hi he
  obtain ⟨u, hu, hdone⟩ := sent_zero hpt
  have hbase : Sys.run (step P) (init (.init b 64)) (block.map .base) = some (init s) := by
    refine run_base (fun a ha => ?_) hs .outside
    rcases List.mem_cons.1 ha with rfl | ha
    · rfl
    · rw [List.eq_of_mem_replicate ha]
      rfl
  exact ⟨t, u, Sys.run_append_eq_some.2 ⟨_, hbase, ht⟩, hpt, fun _ => ⟨_, hpt, rfl⟩, hu, hdone⟩

/-- A `Flush` between the end of the pump's wait and the lock leaves it an empty region to send, and
the pump takes the 0 that `::send` then returns for the end of file. -/
theorem flush_stops_pump :
    let P := RawTxSystem.pumped
    let block := .send (List.replicate 0x8000 7) :: List.replicate 7 .sendStep
    ∃ s t, Sys.run (step P) (init (.init 0x8000 64)) (block.map .base ++ flushed) = some s ∧
      s.base.pump = .holding ⟨⟨0, 0⟩, 0⟩ ∧ SendsSome P s (.base (.sent (.accepted 0))) ∧
      step P s (.base (.sent (.accepted 0))) = some t ∧ t.base.buffer.done = true :=
  block_stops List.length_replicate (by decide) (by decide)

end TxLocks
end Avs4000
