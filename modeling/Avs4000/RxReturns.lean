import Avs4000.Lib.Rank
import Avs4000.RxSamples

namespace Avs4000
set_option autoImplicit true

/-- A `ReceiveSamples` of this many words is under way. -/
def ReceivePc.Receives (count : Nat) : ReceivePc → Prop
  | .idle | .fault => False
  | .loop n .. | .ready n .. | .copy n .. | .copied n .. => n = count

namespace RxSystem
open Memory
open BlockFifo hiding count
open TcpRxSignalClient (pktSize receiveAmt complete)

/-- The packet that is partly handed out. A `Flush` may have taken its block away. -/
def Held (c : TcpRxSignalClient) : Prop := c.packet.samplesLen = 2040 ∧ c.packet.samples ≠ none

/-- What is left of the invariant of the caller when a `Flush` may come at any time. -/
def CallerFlushable (c : TcpRxSignalClient) : ReceivePc → Prop
  | .idle => c.partialCount = 0 ∨ Held c ∧ c.partialCount < 2040
  | .loop count recv samples _ =>
    samples.length = recv ∧ recv ≤ count ∧
      (c.partialCount = 0 ∨ Held c ∧ c.partialCount < 2040)
  | .ready count recv samples _ =>
    samples.length = recv ∧ recv < count ∧ c.partialCount = 0 ∧ 0 < c.buffer.fifo.count
  | .copy count recv samples _ =>
    samples.length = recv ∧ recv < count ∧ Held c ∧ c.partialCount < 2040
  | .copied count recv samples _ amt =>
    samples.length = recv + amt ∧ recv + amt ≤ count ∧ Held c ∧ c.partialCount ≤ 2040
  | .fault => False

structure Flushable (s : RxSystem) : Prop where
  fifo : s.client.buffer.fifo.Inv
  blocks : WholeBlocks s.client.buffer.fifo
  caller : CallerFlushable s.client s.caller
  pump : PumpOk s.client.buffer.fifo s.pump

/-- The steps `ReceiveSamples` may still take. -/
def receiveRank (c : TcpRxSignalClient) : ReceivePc → Nat
  | .idle | .fault => 0
  | .loop count recv _ _ => 4 * Sys.turns 2040 c.partialCount (count - recv) + 1
  | .ready count recv _ _ => 4 * Sys.turns 2040 c.partialCount (count - recv)
  | .copy count recv _ _ => 4 * Sys.turns 2040 c.partialCount (count - recv) - 1
  | .copied count recv _ _ amt =>
    4 * Sys.turns 2040 (if c.partialCount = 2040 then 0 else c.partialCount)
      (count - (recv + amt)) + 2

/-- The call is the one that followed these, and it has not returned. -/
def Calling (count : Nat) (old : List ReceiveCall) (s : RxSystem) : Prop :=
  s.caller.Receives count ∧ s.calls = old

def Returned (count : Nat) (old : List ReceiveCall) (s : RxSystem) : Prop :=
  s.caller = .idle ∧
    ∃ c : ReceiveCall, s.calls = old ++ [c] ∧ c.count = count ∧ c.samples.length ≤ count

def isReceiveStep : Act → Bool
  | .receiveStep => true
  | _ => false

theorem CallerFlushable.producer {c : TcpRxSignalClient} {b : SocketRxBuffer}
    (h : CallerFlushable c pc) (hk : KeepsReading c.buffer.fifo b.fifo) :
    CallerFlushable { c with buffer := b } pc := by
  cases pc with
  | ready => exact ⟨h.1, h.2.1, h.2.2.1, Nat.lt_of_lt_of_le h.2.2.2 hk.count⟩
  | idle | loop | copy | copied | fault => exact h

theorem WholeBlocks.receiveComplete (h : WholeBlocks f) (hi : f.Inv) :
    KeepsWriting f (f.readComplete pktSize) ∧ WholeBlocks (f.readComplete pktSize) := by
  cases hin : f.inBlk with
  | none =>
    rw [readComplete_inBlk_none hin]
    exact ⟨.refl hi, h⟩
  | some i =>
    obtain ⟨rfl, _⟩ := hi.inn i hin
    have hr : f.Reading ⟨⟨f.tail, (f.blk f.tail).read⟩, (f.blk f.tail).len - (f.blk f.tail).read⟩ :=
      ⟨hin, rfl⟩
    exact ⟨keepsWriting_readComplete hi hr (h.reading hi hr), h.readComplete hi hr⟩

theorem receiveAmt_le {c : TcpRxSignalClient} (h : Held c) (hp : c.partialCount < 2040)
    (hlt : recv < count) :
    recv + c.receiveAmt count recv ≤ count ∧ c.partialCount + c.receiveAmt count recv ≤ 2040 := by
  rw [receiveAmt, h.1]
  split <;> omega

theorem receiveStep_flushable (h : Flushable s) (hs : ReceiveStep s t) : Flushable t := by
  have hcaller := h.caller
  cases hs with
  | enter hc hlt hz hf =>
    rw [hc] at hcaller
    rw [h.fifo.empty_iff] at hf
    exact ⟨h.fifo, h.blocks, ⟨hcaller.1, hlt, hz, Nat.pos_of_ne_zero hf⟩, h.pump⟩
  | timeout hc hlt hz hf => exact ⟨h.fifo, h.blocks, .inl hz, h.pump⟩
  | goOn hc hlt hz =>
    rw [hc] at hcaller
    obtain ⟨hl, _, hp⟩ := hcaller
    exact ⟨h.fifo, h.blocks, ⟨hl, hlt, hp.resolve_left hz⟩, h.pump⟩
  | finish hc hge =>
    rw [hc] at hcaller
    exact ⟨h.fifo, h.blocks, hcaller.2.2, h.pump⟩
  | noBlock hc hr =>
    rw [hc] at hcaller
    have hempty := (h.fifo.empty_iff).1 (readStart_none hr).2.2
    exact absurd hempty (Nat.ne_of_gt hcaller.2.2.2)
  | parse hc hr hk =>
    rw [hc] at hcaller
    obtain ⟨hl, hlt, hz, _⟩ := hcaller
    subst hk
    have hk := keepsWriting_readStart h.fifo hr
    exact ⟨hk.inv, h.blocks.readStart h.fifo hr,
      ⟨hl, hlt, ⟨V49Packet.samplesFor_packet, Option.some_ne_none _⟩, hz.trans_lt (by decide)⟩,
      h.pump.consumer hk⟩
  | copy hc hb =>
    rw [hc] at hcaller
    obtain ⟨hl, hlt, hheld, hp⟩ := hcaller
    obtain ⟨hle, hroom⟩ := receiveAmt_le hheld hp hlt
    refine ⟨h.fifo, h.blocks, ⟨?_, hle, hheld, hroom⟩, h.pump⟩
    rw [List.length_append, hl, Mem.length_loadWords]
  | fault hc hb =>
    rw [hc] at hcaller
    exact absurd hb hcaller.2.2.1.2
  | copied hc =>
    rw [hc] at hcaller
    obtain ⟨hl, hle, hheld, hp⟩ := hcaller
    simp only [complete, hheld.1]
    split
    · obtain ⟨hk, hblocks⟩ := h.blocks.receiveComplete h.fifo
      exact ⟨hk.inv, hblocks, ⟨hl, hle, .inl rfl⟩, h.pump.consumer hk⟩
    · next hne =>
      exact ⟨h.fifo, h.blocks, ⟨hl, hle, .inr ⟨hheld, Nat.lt_of_le_of_ne hp hne⟩⟩, h.pump⟩

/-- Every step keeps it, a `Flush` too. -/
theorem step_flushable (h : Flushable s) (hs : Step s a t) : Flushable t := by
  have hp := h.pump
  have hkeep : KeepsReading s.client.buffer.fifo s.client.buffer.fifo := .refl h.fifo
  cases hs with
  | receive hc hlt =>
    have hcaller := h.caller
    rw [hc] at hcaller
    exact ⟨h.fifo, h.blocks, ⟨rfl, Nat.zero_le _, hcaller⟩, hp⟩
  | receiveStep hs => exact receiveStep_flushable h hs
  | flush hc =>
    have hcaller := h.caller
    rw [hc] at hcaller
    exact ⟨reset_inv h.fifo, h.blocks.reset, hc ▸ hcaller, hp.reset⟩
  | startNone hi hn hw =>
    have hk := keepsReading_writeStart h.fifo hw
    exact ⟨hk.inv, h.blocks.writeStart h.fifo hw, h.caller.producer hk, trivial⟩
  | startSome hi hn hw =>
    have hk := keepsReading_writeStart h.fifo hw
    exact ⟨hk.inv, h.blocks.writeStart h.fifo hw, h.caller.producer hk,
      .inr (writeStart_writing h.fifo hw)⟩
  | again hh => exact ⟨h.fifo, h.blocks, h.caller, trivial⟩
  | closed hh hres => exact ⟨h.fifo, h.blocks, h.caller.producer hkeep, trivial⟩
  | @data r n hh hm hn =>
    rw [hh] at hp
    exact ⟨h.fifo, h.blocks, h.caller, Nat.succ_pos n, hp.imp_right fun hr => ⟨r, hr, hm⟩⟩
  | @complete rval hh =>
    rw [hh] at hp
    obtain ⟨hpos, ⟨ho, _⟩ | ⟨r, hr, hle⟩⟩ := hp
    · have hfifo : (s.client.buffer.readDataComplete rval).fifo = s.client.buffer.fifo :=
        writeComplete_outBlk_none ho rval
      have hk : KeepsReading s.client.buffer.fifo (s.client.buffer.readDataComplete rval).fifo :=
        hfifo.symm ▸ hkeep
      exact ⟨hk.inv, hfifo.symm ▸ h.blocks, h.caller.producer hk, trivial⟩
    · have hk := keepsReading_writeComplete h.fifo hr hle
      exact ⟨hk.inv, h.blocks.writeComplete h.fifo hr hle hpos, h.caller.producer hk, trivial⟩

theorem init_flushable {b c : Nat} (hb : 0 < b) (hm : b % 0x2000 = 0) (hc : 0 < c)
    (stream : List UInt8) : Flushable (init stream b c) :=
  ⟨new_inv hb hc, .new hm, .inl rfl, trivial⟩

theorem Calling.ret (h : Calling count old s) (hn : n = count) (hle : recv ≤ n)
    (samples : List UInt32) (tList : List TimeTag) :
    Returned count old (s.ret n recv samples tList) := by
  subst hn
  refine ⟨rfl, _, congrArg (· ++ [_]) h.2, rfl, ?_⟩
  rw [List.length_take]
  exact Nat.le_trans (Nat.min_le_left ..) hle

theorem turns_copy {c : TcpRxSignalClient} (h : Held c) (hp : c.partialCount < 2040)
    (hlt : recv < count) :
    Sys.turns 2040 c.partialCount (count - recv) =
      Sys.turns 2040
        (if c.partialCount + c.receiveAmt count recv = 2040 then 0
          else c.partialCount + c.receiveAmt count recv)
        (count - recv - c.receiveAmt count recv) + 1 := by
  apply Sys.turns_turn hp (Nat.sub_pos_of_lt hlt)
  rw [receiveAmt, h.1]

theorem complete_partialCount {c : TcpRxSignalClient} (h : Held c) :
    c.complete.partialCount = if c.partialCount = 2040 then 0 else c.partialCount := by
  rw [complete, h.1]
  split <;> rfl

theorem receiveStep_caller (hs : ReceiveStep s t) : s.caller ≠ .idle := by
  intro hn
  cases hs with
  | enter hc | timeout hc | goOn hc | finish hc | noBlock hc | parse hc | copy hc | fault hc
  | copied hc => cases hn.symm.trans hc

theorem receiveStep_returns (hi : Flushable s) (h : Calling count old s) (hs : ReceiveStep s t) :
    (Calling count old t ∨ Returned count old t) ∧
      receiveRank t.client t.caller < receiveRank s.client s.caller := by
  have hcaller := hi.caller
  have hflush := (receiveStep_flushable hi hs).caller
  have hn := h.1
  cases hs with
  | enter hc hlt hz hf =>
    rw [hc] at hn ⊢
    exact ⟨.inl ⟨hn, h.2⟩, Nat.lt_succ_self _⟩
  | timeout hc hlt hz hf =>
    rw [hc] at hn ⊢
    exact ⟨.inr (h.ret hn (Nat.le_of_lt hlt) _ _), Nat.succ_pos _⟩
  | goOn hc hlt hz =>
    rw [hc] at hn ⊢
    refine ⟨.inl ⟨hn, h.2⟩, ?_⟩
    simp only [receiveRank]
    omega
  | finish hc hge =>
    rw [hc] at hn hcaller ⊢
    exact ⟨.inr (h.ret hn hcaller.2.1 _ _), Nat.succ_pos _⟩
  | noBlock hc hr => exact hflush.elim
  | parse hc hr hk =>
    subst hk
    rw [hc] at hn hcaller ⊢
    have hpos := Sys.turns_pos 2040 s.client.partialCount (Nat.sub_pos_of_lt hcaller.2.1)
    refine ⟨.inl ⟨hn, h.2⟩, ?_⟩
    simp only [receiveRank]
    omega
  | copy hc hb =>
    rw [hc] at hn hcaller ⊢
    obtain ⟨_, hlt, hheld, hp⟩ := hcaller
    refine ⟨.inl ⟨hn, h.2⟩, ?_⟩
    simp only [receiveRank, Nat.sub_add_eq, turns_copy hheld hp hlt]
    omega
  | fault hc hb => exact hflush.elim
  | copied hc =>
    rw [hc] at hn hcaller ⊢
    refine ⟨.inl ⟨hn, h.2⟩, ?_⟩
    obtain ⟨_, _, hheld, _⟩ := hcaller
    rw [receiveRank, complete_partialCount hheld]
    exact Nat.lt_succ_self _

theorem step_returns (h : Flushable s ∧ (Calling count old s ∨ Returned count old s))
    (ha : ∀ n, a ≠ .receive n) (hs : Step s a t) :
    (Flushable t ∧ (Calling count old t ∨ Returned count old t)) ∧
      receiveRank t.client t.caller + (if isReceiveStep a then 1 else 0) ≤
        receiveRank s.client s.caller := by
  have hi := step_flushable h.1 hs
  have hcall := h.2
  cases hs with
  | receive => exact absurd rfl (ha _)
  | receiveStep hs =>
    have hcalling : Calling count old s := by
      apply hcall.resolve_right
      intro hr
      exact receiveStep_caller hs hr.1
    obtain ⟨hcall, hlt⟩ := receiveStep_returns h.1 hcalling hs
    exact ⟨⟨hi, hcall⟩, hlt⟩
  | flush hc =>
    refine ⟨⟨hi, hcall⟩, ?_⟩
    rw [hc]
    exact Nat.le_refl _
  | startNone | startSome | again | closed | data | complete =>
    exact ⟨⟨hi, hcall⟩, Nat.le_refl _⟩

theorem Calling.receiveStep (h : Calling count old s) : ∃ t, s.receiveStep = some t := by
  have hn := h.1
  cases hc : s.caller with
  | idle | fault =>
    rw [hc] at hn
    cases hn
  | ready =>
    rcases hr : s.client.buffer.receiveStart with ⟨b, _ | r⟩ <;>
      simp only [RxSystem.receiveStep, hc, hr, Option.some.injEq, exists_eq']
  | copy =>
    cases hb : s.client.packet.samples with
    | none | some => simp only [RxSystem.receiveStep, hc, hb, Option.some.injEq, exists_eq']
  | loop | copied => simp only [RxSystem.receiveStep, hc, Option.some.injEq, exists_eq']

theorem Calling.receiveRank_pos (hi : Flushable s) (h : Calling count old s) :
    0 < receiveRank s.client s.caller := by
  obtain ⟨t, ht⟩ := h.receiveStep
  exact Nat.zero_lt_of_lt (receiveStep_returns hi h (receiveStep_cases ht)).2

theorem run_returns (h : Flushable s ∧ (Calling count old s ∨ Returned count old s))
    (hn : ∀ a ∈ acts, ∀ n, a ≠ .receive n) (hr : Sys.run step s acts = some t) :
    (Flushable t ∧ (Calling count old t ∨ Returned count old t)) ∧
      receiveRank t.client t.caller + acts.countP isReceiveStep ≤
        receiveRank s.client s.caller := by
  have hstep : ∀ s a t, (Flushable s ∧ (Calling count old s ∨ Returned count old s)) →
      (∀ n, a ≠ .receive n) → step s a = some t →
        (Flushable t ∧ (Calling count old t ∨ Returned count old t)) ∧
          receiveRank t.client t.caller + (if isReceiveStep a then 1 else 0) ≤
            receiveRank s.client s.caller := by
    intro s a t h ha hs
    exact step_returns h ha (step_cases hs)
  exact Sys.run_rank hstep h hn hr

/-- Whatever the pump does or fails to do, and whenever `Flush` was called, `ReceiveSamples`
returns within four steps for each packet it takes from, and there is always a next one. -/
theorem receiveSamples_returns {b c : Nat} (hb : 0 < b) (hm : b % 0x2000 = 0) (hc : 0 < c)
    (hr : Sys.run step (init stream b c) earlier = some s)
    (hs : step s (.receive count) = some s')
    (hn : ∀ a ∈ acts, ∀ n, a ≠ .receive n) (hr' : Sys.run step s' acts = some t) :
    (Returned count s.calls t ∧ acts.countP isReceiveStep ≤
        4 * ((s.client.partialCount + count + 2039) / 2040) + 1) ∨
      (Calling count s.calls t ∧ acts.countP isReceiveStep <
        4 * ((s.client.partialCount + count + 2039) / 2040) + 1 ∧
        ∃ u, step t .receiveStep = some u) := by
  have hflush : Flushable s := by
    refine Sys.run_invariant (I := Flushable) ?_ (init_flushable hb hm hc stream) hr
    exact fun s a t h hs => step_flushable h (step_cases hs)
  have hflush' := step_flushable hflush (step_cases hs)
  cases step_cases hs with
  | receive hidle hlt =>
    obtain ⟨⟨hi, hcall⟩, hle⟩ := run_returns ⟨hflush', .inl ⟨rfl, rfl⟩⟩ hn hr'
    have hstart : receiveRank s.client (.loop count 0 [] []) ≤
        4 * ((s.client.partialCount + count + 2039) / 2040) + 1 := by
      rw [receiveRank, Nat.sub_zero, Sys.turns]
      split <;> omega
    have hle := Nat.le_trans hle hstart
    rcases hcall with hcall | hcall
    · have hrank := hcall.receiveRank_pos hi
      exact .inr ⟨hcall, by omega, hcall.receiveStep⟩
    · exact .inl ⟨hcall, by omega⟩

/-- A call after a `Flush` that goes on with a packet of which one sample was handed out. -/
theorem receiveSamples_returns_half : ∃ s s' t,
    Sys.run step (init [List.replicate 0x2000 (1 : UInt8)].flatten (0x2000 * 1) 2)
      (firstSample ++ [.flush]) = some s ∧ s.client.partialCount = 1 ∧ s.calls.length = 1 ∧
    step s (.receive 1) = some s' ∧
    Sys.run step s' [.receiveStep, .receiveStep, .receiveStep, .receiveStep] = some t ∧
    t.calls.length = 2 ∧ Returned 1 s.calls t := by
  have hlen : (List.replicate 0x2000 (1 : UInt8)).length = 0x2000 := List.length_replicate
  obtain ⟨r, hrun, hc, hp, hl, ⟨a, hb⟩, _, ws, tag, _, hcalls⟩ := run_firstSample hlen
  let s := { r with client := r.client.flush }
  have hflush : step r .flush = some s := by
    simp only [step, hc, s]
  have hs : Sys.run step (init [List.replicate 0x2000 (1 : UInt8)].flatten (0x2000 * 1) 2)
      (firstSample ++ [.flush]) = some s :=
    Sys.run_append_eq_some.2 ⟨r, hrun, Sys.run_cons_eq_some.2 ⟨s, hflush, rfl⟩⟩
  obtain ⟨t, ht, hct, _, ws', _, hcalls'⟩ := receive_next (s := s) hc hp hl hb
  obtain ⟨s', hs', hr'⟩ := Sys.run_cons_eq_some.1 ht
  have hn : ∀ a ∈ [Act.receiveStep, .receiveStep, .receiveStep, .receiveStep], ∀ n,
      a ≠ .receive n := by
    intro a ha n he
    subst he
    simp at ha
  have hone : s.calls.length = 1 := congrArg List.length hcalls
  refine ⟨s, s', t, hs, hp, hone, hs', hr', by rw [hcalls', List.length_append, hone]; rfl, ?_⟩
  rcases receiveSamples_returns (b := 0x2000 * 1) (by decide) rfl (by decide) hs hs' hn hr' with
    ⟨hret, _⟩ | ⟨hcall, _⟩
  · exact hret
  · have hd := hcall.1
    rw [hct] at hd
    cases hd

end RxSystem
end Avs4000
