import Avs4000.Lib.Rank
import Avs4000.RawRxSamples
import Avs4000.RawTxSystem

namespace Avs4000
open Memory BlockFifo
set_option autoImplicit true

/-- The bytes that `Write` will have moved once its turn is over. -/
def WritePc.moved : WritePc → Nat
  | .loop written | .copy written _ | .done written => written
  | .copied written amt => written + amt

/-- A `Send` of these bytes is under way. -/
def BufferSendPc.Sends (data : List UInt8) : BufferSendPc → Prop
  | .idle => False
  | .loop d queued => d = data ∧ queued ≤ data.length
  | .write d queued pc => d = data ∧ queued ≤ data.length ∧ pc.moved ≤ (data.drop queued).length

/-- The steps that a loop around `Write` or `Read` may still take when the inner one is about to
ask the ring, `left` bytes from the end. An inner loop that has moved something comes back. -/
def askRank (left moved : Nat) : Nat := 6 * left + if moved = 0 then 3 else 6

namespace RawTxSystem

/-- The steps `Send` may still take. -/
def sendRank : BufferSendPc → Nat
  | .idle => 0
  | .loop data queued => 6 * (data.length - queued) + 4
  | .write data queued (.loop written) => askRank (data.length - queued - written) written
  | .write data queued (.copy written _) => askRank (data.length - queued - written) written - 1
  | .write data queued (.copied written amt) => 6 * (data.length - queued - (written + amt)) + 7
  | .write data queued (.done rval) =>
    if rval = 0 then 1 else 6 * (data.length - queued - rval) + 5

/-- The call is the one that followed these, and it has not returned. -/
def Calling (data : List UInt8) (old : List (List UInt8 × Nat)) (s : RawTxSystem) : Prop :=
  s.caller.Sends data ∧ s.sends = old

def Returned (data : List UInt8) (old : List (List UInt8 × Nat)) (s : RawTxSystem) : Prop :=
  s.caller = .idle ∧ ∃ queued, queued ≤ data.length ∧ s.sends = old ++ [(data, queued)]

def isSendStep : Act → Bool
  | .sendStep => true
  | _ => false

theorem Calling.ret {s : RawTxSystem} (h : Calling data old s) (hq : queued ≤ data.length) :
    Returned data old (s.ret data queued) :=
  ⟨rfl, queued, hq, congrArg (· ++ [(data, queued)]) h.2⟩

theorem writeStep_returns {f : BlockFifo} {data : List UInt8} (h : f.Inv)
    (hw : f.WriteOk (data.drop queued).length pc)
    (hm : pc.moved ≤ (data.drop queued).length) (hd : ∀ rval, pc ≠ .done rval)
    (hs : f.writeStep (data.drop queued) m pc = (f', m', pc')) :
    pc'.moved ≤ (data.drop queued).length ∧
      sendRank (.write data queued pc') < sendRank (.write data queued pc) := by
  have hlen : (data.drop queued).length = data.length - queued := List.length_drop
  cases writeStep_cases hs with
  | room hlt hstart =>
    refine ⟨hm, ?_⟩
    simp only [sendRank, askRank]
    split <;> omega
  | full hstart =>
    refine ⟨hm, ?_⟩
    simp only [sendRank, askRank]
    split <;> omega
  | finish =>
    refine ⟨hm, ?_⟩
    simp only [sendRank, askRank]
    split <;> omega
  | done => exact absurd rfl (hd _)
  | @copy amt written p ha =>
    obtain ⟨hlt, hp⟩ := hw
    have hpos := turnAmt_pos (Nat.sub_pos_of_lt hlt) (hp.maxAmt_pos h)
    have hle := (turnAmt_le ((data.drop queued).length - written) p.maxAmt).1
    rw [← ha] at hpos hle
    refine ⟨?_, ?_⟩
    · change written + amt ≤ _
      omega
    · simp only [sendRank, askRank]
      split <;> omega
  | @copied written amt =>
    refine ⟨hm, ?_⟩
    have hpos : written + amt ≠ 0 := Nat.pos_iff_ne_zero.1 (Nat.add_pos_right _ hw.1)
    simp only [sendRank, askRank, if_neg hpos]
    omega

theorem sendStep_returns {s t : RawTxSystem} (hi : Inv s) (h : Calling data old s)
    (hs : s.sendStep = some t) :
    (Calling data old t ∨ Returned data old t) ∧ sendRank t.caller < sendRank s.caller := by
  have hcaller := hi.caller
  have hd := h.1
  cases hc : s.caller with
  | idle =>
    rw [hc] at hd
    cases hd
  | loop d queued =>
    rw [hc] at hd
    obtain ⟨rfl, hq⟩ := hd
    simp only [sendStep, hc, Option.some.injEq] at hs
    subst hs
    split
    · next hlt =>
      refine ⟨.inl ⟨⟨rfl, hq, Nat.zero_le _⟩, h.2⟩, ?_⟩
      simp only [sendRank, askRank, Nat.sub_zero, if_true]
      omega
    · exact ⟨.inr (h.ret hq), Nat.succ_pos _⟩
  | write d queued pc =>
    rw [hc] at hd hcaller
    obtain ⟨rfl, hq, hm⟩ := hd
    have hw : s.buffer.fifo.WriteOk (d.drop queued).length pc := hcaller
    cases pc with
    | done rval =>
      have hm' : rval ≤ d.length - queued := List.length_drop ▸ hm
      simp only [sendStep, hc, Option.some.injEq] at hs
      subst hs
      split
      · next hz =>
        subst hz
        exact ⟨.inr (h.ret hq), Nat.one_pos⟩
      · next hne =>
        refine ⟨.inl ⟨⟨rfl, by omega⟩, h.2⟩, ?_⟩
        simp only [sendRank, if_neg hne]
        omega
    | loop | copy | copied =>
      simp only [sendStep, hc, Option.some.injEq] at hs
      subst hs
      obtain ⟨hm', hlt⟩ := writeStep_returns (m := s.mem) hi.fifo hw hm
        (by intro _ he; cases he) rfl
      exact ⟨.inl ⟨⟨rfl, hq, hm'⟩, h.2⟩, hlt⟩

theorem Calling.sendStep {s : RawTxSystem} (h : Calling data old s) :
    ∃ t, s.sendStep = some t := by
  have hd := h.1
  cases hc : s.caller with
  | idle =>
    rw [hc] at hd
    cases hd
  | loop => simp only [RawTxSystem.sendStep, hc, Option.some.injEq, exists_eq']
  | write d queued pc =>
    cases pc with
    | loop | copy | copied | done =>
      simp only [RawTxSystem.sendStep, hc, Option.some.injEq, exists_eq']

theorem Calling.sendRank_pos {s : RawTxSystem} (hi : Inv s) (h : Calling data old s) :
    0 < sendRank s.caller := by
  obtain ⟨t, ht⟩ := h.sendStep
  exact Nat.zero_lt_of_lt (sendStep_returns hi h ht).2

theorem step_returns {s t : RawTxSystem}
    (h : Inv s ∧ (Calling data old s ∨ Returned data old s)) (ha : ∀ d, a ≠ .send d)
    (hs : s.step a = some t) :
    (Inv t ∧ (Calling data old t ∨ Returned data old t)) ∧
      sendRank t.caller + (if isSendStep a then 1 else 0) ≤ sendRank s.caller := by
  have hi := step_inv h.1 (step_cases hs)
  have hcall := h.2
  by_cases hown : a = .sendStep
  · subst hown
    have hcalling : Calling data old s := by
      apply hcall.resolve_right
      intro hr
      have hs : s.sendStep = some t := hs
      simp only [sendStep, hr.1] at hs
      cases hs
    obtain ⟨hcall, hlt⟩ := sendStep_returns h.1 hcalling hs
    exact ⟨⟨hi, hcall⟩, hlt⟩
  · cases step_cases hs with
    | send => exact absurd rfl (ha _)
    | sendStep => exact absurd rfl hown
    | flush | startNone | startSome | again | closed | accepted | complete =>
      exact ⟨⟨hi, hcall⟩, Nat.le_refl _⟩

theorem run_returns {s t : RawTxSystem}
    (h : Inv s ∧ (Calling data old s ∨ Returned data old s))
    (hn : ∀ a ∈ acts, ∀ d, a ≠ .send d) (hr : Sys.run step s acts = some t) :
    (Inv t ∧ (Calling data old t ∨ Returned data old t)) ∧
      sendRank t.caller + acts.countP isSendStep ≤ sendRank s.caller := by
  have hstep : ∀ s a t, (Inv s ∧ (Calling data old s ∨ Returned data old s)) →
      (∀ d, a ≠ .send d) → step s a = some t →
        (Inv t ∧ (Calling data old t ∨ Returned data old t)) ∧
          sendRank t.caller + (if isSendStep a then 1 else 0) ≤ sendRank s.caller := by
    intro s a t h ha hs
    exact step_returns h ha hs
  exact Sys.run_rank hstep h hn hr

theorem reachable_inv {b c : Nat} (hb : 0 < b) (hc : 0 < c)
    (hr : Sys.run step (init b c) acts = some s) : Inv s := by
  refine Sys.run_invariant (I := Inv) ?_ (init_inv hb hc) hr
  exact fun s a t h hs => step_inv h (step_cases hs)

/-- Whatever the pump does or fails to do, `Send` returns within six steps for each byte, and there
is always a next one. -/
theorem bufferSend_returns {s : RawTxSystem} {b c : Nat} (hb : 0 < b) (hc : 0 < c)
    (hr : Sys.run step (init b c) earlier = some s) (hs : s.step (.send data) = some s')
    (hn : ∀ a ∈ acts, ∀ d, a ≠ .send d) (hr' : Sys.run step s' acts = some t) :
    (Returned data s.sends t ∧ acts.countP isSendStep ≤ 6 * data.length + 4) ∨
      (Calling data s.sends t ∧ acts.countP isSendStep < 6 * data.length + 4 ∧
        ∃ u, t.step .sendStep = some u) := by
  have hinv := reachable_inv hb hc hr
  have hinv' := step_inv hinv (step_cases hs)
  cases step_cases hs with
  | send _ hidle =>
    obtain ⟨⟨hi, hcall⟩, hle⟩ := run_returns ⟨hinv', .inl ⟨⟨rfl, Nat.zero_le _⟩, rfl⟩⟩ hn hr'
    change _ ≤ 6 * data.length + 4 at hle
    rcases hcall with hcall | hcall
    · have hrank := hcall.sendRank_pos hi
      exact .inr ⟨hcall, by omega, hcall.sendStep⟩
    · exact .inl ⟨hcall, by omega⟩

/-- The second of two bytes finds a ring of one-byte blocks full. -/
theorem bufferSend_returns_two : ∃ s t, (init 1 2).step (.send [7, 8]) = some s ∧
    Sys.run step s (List.replicate 9 .sendStep) = some t ∧ Returned [7, 8] [] t := by
  obtain ⟨s, t, hs, hr, hi⟩ : ∃ s t, (init 1 2).step (.send [7, 8]) = some s ∧
      Sys.run step s (List.replicate 9 .sendStep) = some t ∧ t.caller = .idle :=
    ⟨_, _, rfl, rfl, rfl⟩
  have hb : 0 < 1 := Nat.one_pos
  have hc : 0 < 2 := by decide
  have h0 : Sys.run step (init 1 2) [] = some (init 1 2) := rfl
  have hn : ∀ a ∈ List.replicate 9 Act.sendStep, ∀ d, a ≠ .send d := by
    intro a ha d he
    rw [List.eq_of_mem_replicate ha] at he
    cases he
  refine ⟨s, t, hs, hr, ?_⟩
  rcases bufferSend_returns hb hc h0 hs hn hr with ⟨hret, _⟩ | ⟨hcall, _⟩
  · exact hret
  · have hd := hcall.1
    rw [hi] at hd
    cases hd

end RawTxSystem

/-- A call of this function is under way. -/
def BufferReceivePc.Receives (fn : ReceiveFn) : BufferReceivePc → Prop
  | .idle => False
  | .loop f _ | .read f .. => f = fn

namespace RawRxSystem

/-- The steps `Receive` may still take. -/
def receiveRank : BufferReceivePc → Nat
  | .idle => 0
  | .loop fn out => 6 * (fn.len - out.length) + 4
  | .read fn out (.loop bs) => askRank (fn.len - out.length - bs.length) bs.length
  | .read fn out (.copy bs _) => askRank (fn.len - out.length - bs.length) bs.length - 1
  | .read fn out (.copied bs _) => 6 * (fn.len - out.length - bs.length) + 7
  | .read fn out (.done bs) =>
    if bs.length = 0 then 1 else 6 * (fn.len - out.length - bs.length) + 5

/-- The call is the one that followed these, and it has not returned. -/
def Calling (fn : ReceiveFn) (old : List RawReceiveCall) (s : RawRxSystem) : Prop :=
  s.caller.Receives fn ∧ s.calls = old

def Returned (fn : ReceiveFn) (old : List RawReceiveCall) (s : RawRxSystem) : Prop :=
  s.caller = .idle ∧ ∃ bytes, bytes.length ≤ fn.len ∧ s.calls = old ++ [⟨fn, bytes⟩]

def isReceiveStep : Act → Bool
  | .receiveStep => true
  | _ => false

theorem Calling.ret {s : RawRxSystem} (h : Calling fn old s) (hf : f = fn)
    (hle : out.length ≤ f.len) : Returned fn old (s.ret f out) := by
  subst hf
  exact ⟨rfl, out, hle, congrArg (· ++ [RawReceiveCall.mk f out]) h.2⟩

theorem receiveStep_caller {s t : RawRxSystem} (hs : ReceiveStep s t) : s.caller ≠ .idle := by
  intro hn
  cases hs with
  | enter hc | finish hc | nothing hc | goOn hc | look hc | empty hc | full hc | copy hc
  | copied hc => cases hn.symm.trans hc

theorem receiveStep_returns {s t : RawRxSystem} (hi : Inv s) (hfit : Fits s)
    (h : Calling fn old s) (hs : ReceiveStep s t) :
    (Calling fn old t ∨ Returned fn old t) ∧ receiveRank t.caller < receiveRank s.caller := by
  have hcaller := hi.caller
  have hfits := hfit.caller
  have hn := h.1
  cases hs with
  | enter hc hd hlt =>
    rw [hc] at hn ⊢
    refine ⟨.inl ⟨hn, h.2⟩, ?_⟩
    simp only [receiveRank, askRank, List.length_nil, Nat.sub_zero, if_true]
    omega
  | finish hc hd =>
    rw [hc] at hn hfits ⊢
    exact ⟨.inr (h.ret hn hfits.2), Nat.succ_pos _⟩
  | nothing hc =>
    rw [hc] at hn hfits ⊢
    rw [CallerFits, ReadPc.out, List.append_nil] at hfits
    exact ⟨.inr (h.ret hn hfits.2), Nat.one_pos⟩
  | @goOn fn out bs hc hb =>
    rw [hc] at hn hfits ⊢
    have hne : bs.length ≠ 0 := fun hz => hb (List.eq_nil_of_length_eq_zero hz)
    refine ⟨.inl ⟨hn, h.2⟩, ?_⟩
    simp only [receiveRank, if_neg hne, List.length_append]
    omega
  | look hc hlt hr =>
    rw [hc] at hn ⊢
    refine ⟨.inl ⟨hn, h.2⟩, ?_⟩
    simp only [receiveRank, askRank]
    split <;> omega
  | empty hc hlt hr =>
    rw [hc] at hn ⊢
    refine ⟨.inl ⟨hn, h.2⟩, ?_⟩
    simp only [receiveRank, askRank]
    split <;> omega
  | full hc hge =>
    rw [hc] at hn ⊢
    refine ⟨.inl ⟨hn, h.2⟩, ?_⟩
    simp only [receiveRank, askRank]
    split <;> omega
  | @copy fn out bs p amt hc ha =>
    rw [hc] at hn hcaller ⊢
    obtain ⟨hlt, hp⟩ := hcaller
    have hpos := turnAmt_pos (Nat.sub_pos_of_lt hlt) (hi.blocks.reading hi.fifo hp)
    have hle := (turnAmt_le (fn.len - out.length - bs.length) p.maxAmt).1
    rw [← ha] at hpos hle
    refine ⟨.inl ⟨hn, h.2⟩, ?_⟩
    simp only [receiveRank, askRank, List.length_append, Mem.length_load]
    split <;> omega
  | @copied fn out bs amt hc =>
    rw [hc] at hn hcaller ⊢
    obtain ⟨hpos, p, bs', hp, hle, rfl⟩ := hcaller
    refine ⟨.inl ⟨hn, h.2⟩, ?_⟩
    simp only [receiveRank, askRank, List.length_append, Mem.length_load]
    split <;> omega

theorem Calling.receiveStep {s : RawRxSystem} (h : Calling fn old s) :
    ∃ t, s.receiveStep = some t := by
  have hn := h.1
  cases hc : s.caller with
  | idle =>
    rw [hc] at hn
    cases hn
  | loop => simp only [RawRxSystem.receiveStep, hc, Option.some.injEq, exists_eq']
  | read f out pc =>
    cases pc with
    | loop | copy | copied | done =>
      simp only [RawRxSystem.receiveStep, hc, Option.some.injEq, exists_eq']

theorem Calling.receiveRank_pos {s : RawRxSystem} (hi : Inv s) (hfit : Fits s)
    (h : Calling fn old s) : 0 < receiveRank s.caller := by
  obtain ⟨t, ht⟩ := h.receiveStep
  exact Nat.zero_lt_of_lt (receiveStep_returns hi hfit h (receiveStep_cases ht)).2

theorem step_returns {s t : RawRxSystem}
    (h : (Inv s ∧ Fits s) ∧ (Calling fn old s ∨ Returned fn old s)) (ha : ∀ f, a ≠ .receive f)
    (hs : Step s a t) :
    ((Inv t ∧ Fits t) ∧ (Calling fn old t ∨ Returned fn old t)) ∧
      receiveRank t.caller + (if isReceiveStep a then 1 else 0) ≤ receiveRank s.caller := by
  obtain ⟨⟨hi, hfit⟩, hcall⟩ := h
  have hkept := And.intro (step_inv hi hs) (step_fits hfit hs)
  cases hs with
  | receive => exact absurd rfl (ha _)
  | receiveStep hs =>
    have hcalling : Calling fn old s := by
      apply hcall.resolve_right
      intro hr
      exact receiveStep_caller hs hr.1
    obtain ⟨hcall, hlt⟩ := receiveStep_returns hi hfit hcalling hs
    exact ⟨⟨hkept, hcall⟩, hlt⟩
  | startNone | startSome | again | closed | data | complete =>
    exact ⟨⟨hkept, hcall⟩, Nat.le_refl _⟩

theorem run_returns {s t : RawRxSystem}
    (h : (Inv s ∧ Fits s) ∧ (Calling fn old s ∨ Returned fn old s))
    (hn : ∀ a ∈ acts, ∀ f, a ≠ .receive f) (hr : Sys.run step s acts = some t) :
    ((Inv t ∧ Fits t) ∧ (Calling fn old t ∨ Returned fn old t)) ∧
      receiveRank t.caller + acts.countP isReceiveStep ≤ receiveRank s.caller := by
  have hstep : ∀ s a t, ((Inv s ∧ Fits s) ∧ (Calling fn old s ∨ Returned fn old s)) →
      (∀ f, a ≠ .receive f) → step s a = some t →
        ((Inv t ∧ Fits t) ∧ (Calling fn old t ∨ Returned fn old t)) ∧
          receiveRank t.caller + (if isReceiveStep a then 1 else 0) ≤ receiveRank s.caller := by
    intro s a t h ha hs
    exact step_returns h ha (step_cases hs)
  exact Sys.run_rank hstep h hn hr

theorem reachable_fits {b c : Nat} (hb : 0 < b) (hc : 0 < c)
    (hr : Sys.run step (init stream b c) acts = some s) : Inv s ∧ Fits s := by
  have hfits : Fits (init stream b c) := ⟨trivial, fun _ hc => nomatch hc⟩
  refine Sys.run_invariant (I := fun s => Inv s ∧ Fits s) ?_ ⟨init_inv hb hc stream, hfits⟩ hr
  exact fun s a t h hs => ⟨step_inv h.1 (step_cases hs), step_fits h.2 (step_cases hs)⟩

/-- Whatever the pump does or fails to do, `Receive` returns within six steps for each byte it may
write, and there is always a next one. -/
theorem bufferReceive_returns {s : RawRxSystem} {b c : Nat} (hb : 0 < b) (hc : 0 < c)
    (hr : Sys.run step (init stream b c) earlier = some s) (hs : s.step (.receive fn) = some s')
    (hn : ∀ a ∈ acts, ∀ f, a ≠ .receive f) (hr' : Sys.run step s' acts = some t) :
    (Returned fn s.calls t ∧ acts.countP isReceiveStep ≤ 6 * fn.len + 4) ∨
      (Calling fn s.calls t ∧ acts.countP isReceiveStep < 6 * fn.len + 4 ∧
        ∃ u, t.step .receiveStep = some u) := by
  obtain ⟨hinv, hfits⟩ := reachable_fits hb hc hr
  have hinv' := step_inv hinv (step_cases hs)
  have hfits' := step_fits hfits (step_cases hs)
  cases step_cases hs with
  | receive hidle hf =>
    obtain ⟨⟨⟨hi, hfit⟩, hcall⟩, hle⟩ := run_returns ⟨⟨hinv', hfits'⟩, .inl ⟨rfl, rfl⟩⟩ hn hr'
    change _ ≤ 6 * fn.len + 4 at hle
    rcases hcall with hcall | hcall
    · have hrank := hcall.receiveRank_pos hi hfit
      exact .inr ⟨hcall, by omega, hcall.receiveStep⟩
    · exact .inl ⟨hcall, by omega⟩

/-- A byte that the pump brings while the call is under way. -/
theorem bufferReceive_returns_byte : ∃ s t, (init [7] 1 2).step (.receive (.buffer 4)) = some s ∧
    Sys.run step s [.receiveStep, .readDataStart, .got (.data 1), .readDataComplete, .receiveStep,
      .receiveStep, .receiveStep, .receiveStep, .receiveStep, .receiveStep, .receiveStep,
      .receiveStep] = some t ∧ Returned (.buffer 4) [] t := by
  obtain ⟨s, t, hs, hr, hi⟩ : ∃ s t, (init [7] 1 2).step (.receive (.buffer 4)) = some s ∧
      Sys.run step s [.receiveStep, .readDataStart, .got (.data 1), .readDataComplete,
        .receiveStep, .receiveStep, .receiveStep, .receiveStep, .receiveStep, .receiveStep,
        .receiveStep, .receiveStep] = some t ∧ t.caller = .idle := ⟨_, _, rfl, rfl, rfl⟩
  have hb : 0 < 1 := Nat.one_pos
  have hc : 0 < 2 := by decide
  have h0 : Sys.run step (init [7] 1 2) [] = some (init [7] 1 2) := rfl
  refine ⟨s, t, hs, hr, ?_⟩
  rcases bufferReceive_returns hb hc h0 hs (by simp) hr with ⟨hret, _⟩ | ⟨hcall, _⟩
  · exact hret
  · have hd := hcall.1
    rw [hi] at hd
    cases hd

end RawRxSystem
end Avs4000
