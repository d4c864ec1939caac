import Avs4000.Lib.Rank
import Avs4000.TxInvariant

namespace Avs4000
set_option autoImplicit true

/-- A `Send` of these bytes is under way. -/
def SendPc.Sends (data : List UInt8) : SendPc → Prop
  | .idle | .fault => False
  | .loop d _ | .ready d _ | .forced d .. | .restart d .. | .attach d .. | .fill d _
  | .filled d .. => d = data

theorem SendPc.Sends.starts {x : SendPc} (h : x.Sends data) (hx : x.Starts d sent) : d = data := by
  rcases hx with rfl | ⟨_, rfl⟩
  · exact h
  · exact h

namespace TxSystem
open Memory
open TcpTxSignalClient (pktSize slen sendAmt complete)
set_option autoImplicit true

/-- The steps `Send` may still take. -/
def sendRank (c : TcpTxSignalClient) : SendPc → Nat
  | .idle | .fault => 0
  | .loop data sent => 7 * Sys.turns 8160 c.plen (data.length - sent) + 1
  | .ready data sent => 7 * Sys.turns 8160 c.plen (data.length - sent)
  | .forced data sent _ => 7 * Sys.turns 8160 c.plen (data.length - sent) - 1
  | .restart data sent _ => 7 * Sys.turns 8160 c.plen (data.length - sent) - 2
  | .attach data sent _ => 7 * Sys.turns 8160 c.plen (data.length - sent) - 3
  | .fill data sent => 7 * Sys.turns 8160 c.plen (data.length - sent) - 4
  | .filled data sent amt =>
    7 * Sys.turns 8160 (if c.plen = 8160 then 0 else c.plen) (data.length - (sent + amt)) + 2

/-- The call is the one that followed these, and it has not returned. -/
def Calling (data : List UInt8) (old : List (List UInt8 × Nat)) (s : TxSystem) : Prop :=
  s.caller.Sends data ∧ s.sends = old

def Returned (data : List UInt8) (old : List (List UInt8 × Nat)) (s : TxSystem) : Prop :=
  s.caller = .idle ∧ ∃ sent, sent ≤ data.length ∧ s.sends = old ++ [(data, sent)]

def isSendStep : Act → Bool
  | .sendStep _ => true
  | _ => false

theorem Calling.ret (h : Calling data old s) (hd : d = data) (hs : sent ≤ d.length) :
    Returned data old (s.ret d sent) := by
  subst hd
  exact ⟨rfl, sent, hs, congrArg (· ++ [(d, sent)]) h.2⟩

theorem sendRank_starts {x : SendPc} {c : TcpTxSignalClient} (hx : x.Starts data sent)
    (hlt : sent < data.length) :
    3 < sendRank c x ∧ 7 * Sys.turns 8160 c.plen (data.length - sent) ≤ sendRank c x + 2 := by
  have hpos := Sys.turns_pos 8160 c.plen (Nat.sub_pos_of_lt hlt)
  rcases hx with rfl | ⟨_, rfl⟩
  · simp only [sendRank]
    omega
  · simp only [sendRank]
    omega

theorem turns_fill {c : TcpTxSignalClient} {data : List UInt8} (h : OpenPacket c)
    (hp : c.plen < 8160) (hs : sent < data.length) :
    Sys.turns 8160 c.plen (data.length - sent) =
      Sys.turns 8160
        (if c.plen + c.sendAmt data sent = 8160 then 0 else c.plen + c.sendAmt data sent)
        (data.length - sent - c.sendAmt data sent) + 1 := by
  apply Sys.turns_turn hp (Nat.sub_pos_of_lt hs)
  rw [sendAmt, slen_eq h]

theorem complete_plen {c : TcpTxSignalClient} (h : OpenPacket c) :
    c.complete.plen = if c.plen = 8160 then 0 else c.plen := by
  rw [complete, slen_eq h]
  split <;> rfl

theorem sendStep_ne_idle (hs : SendStep s t) : s.caller ≠ .idle := by
  intro hn
  cases hs with
  | noRoom hc _ | room hc _ _ =>
    rw [hn] at hc
    obtain hc | ⟨_, hc⟩ := hc <;> cases hc
  | enter hc | timeout hc | goOn hc | finish hc | short hc | force hc | attach hc | fill hc
  | fault hc | filled hc => cases hn.symm.trans hc

theorem sendStep_returns (hi : Inv s) (h : Calling data old s) (hs : SendStep s t) :
    (Calling data old t ∨ Returned data old t) ∧
      sendRank t.client t.caller < sendRank s.client s.caller := by
  have hcaller := hi.caller
  have hd := h.1
  cases hs with
  | enter hc hlt hz hf =>
    rw [hc] at hd ⊢
    exact ⟨.inl ⟨hd, h.2⟩, Nat.lt_succ_self _⟩
  | timeout hc hlt hz hf =>
    rw [hc] at hd ⊢
    exact ⟨.inr (h.ret hd (Nat.le_of_lt hlt)), Nat.succ_pos _⟩
  | goOn hc hlt hz =>
    rw [hc] at hd ⊢
    refine ⟨.inl ⟨hd, h.2⟩, ?_⟩
    simp only [sendRank]
    omega
  | finish hc hge =>
    rw [hc] at hd hcaller ⊢
    exact ⟨.inr (h.ret hd hcaller.1), Nat.succ_pos _⟩
  | short hc hw hm hb =>
    rw [hc] at hd hcaller ⊢
    have hpos := Sys.turns_pos 8160 s.client.plen (Nat.sub_pos_of_lt hcaller.1)
    refine ⟨.inl ⟨hd, h.2⟩, ?_⟩
    simp only [sendRank]
    omega
  | noRoom hc hw =>
    obtain ⟨hlt, _⟩ := hcaller.starts hc
    exact ⟨.inr (h.ret (hd.starts hc) (Nat.le_of_lt hlt)),
      Nat.zero_lt_of_lt (sendRank_starts hc hlt).1⟩
  | room hc hw hm =>
    obtain ⟨hlt, _⟩ := hcaller.starts hc
    obtain ⟨hpos, hle⟩ := sendRank_starts (c := s.client) hc hlt
    refine ⟨.inl ⟨hd.starts hc, h.2⟩, ?_⟩
    apply Nat.lt_of_le_of_lt (Nat.sub_le_sub_right hle 3)
    omega
  | force hc =>
    rw [hc] at hd hcaller ⊢
    have hpos := Sys.turns_pos 8160 s.client.plen (Nat.sub_pos_of_lt hcaller.1)
    refine ⟨.inl ⟨hd, h.2⟩, ?_⟩
    simp only [sendRank]
    omega
  | attach hc =>
    rw [hc] at hd hcaller ⊢
    have hpos := Sys.turns_pos 8160 s.client.plen (Nat.sub_pos_of_lt hcaller.1)
    refine ⟨.inl ⟨hd, h.2⟩, ?_⟩
    simp only [sendRank, TcpTxSignalClient.attach]
    omega
  | fill hc hb =>
    rw [hc] at hd hcaller ⊢
    obtain ⟨hlt, ho, hp⟩ := hcaller
    refine ⟨.inl ⟨hd, h.2⟩, ?_⟩
    simp only [sendRank, Nat.sub_add_eq, turns_fill ho hp hlt]
    omega
  | fault hc hb => exact absurd hb (hi.sampleBuffer_ne_none hc)
  | filled hc =>
    rw [hc] at hd hcaller ⊢
    refine ⟨.inl ⟨hd, h.2⟩, ?_⟩
    obtain ⟨_, ho, _⟩ := hcaller
    rw [sendRank, complete_plen ho]
    exact Nat.lt_succ_self _

theorem step_returns (h : Inv s ∧ (Calling data old s ∨ Returned data old s))
    (ha : ∀ d, a ≠ .send d) (hs : Step s a t) :
    (Inv t ∧ (Calling data old t ∨ Returned data old t)) ∧
      sendRank t.client t.caller + (if isSendStep a then 1 else 0) ≤
        sendRank s.client s.caller := by
  have hi := step_inv h.1 hs
  have hcall := h.2
  cases hs with
  | send => exact absurd rfl (ha _)
  | sendStep junk hs =>
    have hcalling : Calling data old s := by
      apply hcall.resolve_right
      intro hr
      exact sendStep_ne_idle hs hr.1
    obtain ⟨hcall, hlt⟩ := sendStep_returns h.1 hcalling hs
    exact ⟨⟨hi, hcall⟩, hlt⟩
  | flush hc =>
    refine ⟨⟨hi, hcall⟩, ?_⟩
    rw [hc]
    exact Nat.le_refl _
  | startNone | startSome | again | closed | accepted | complete =>
    exact ⟨⟨hi, hcall⟩, Nat.le_refl _⟩

theorem Calling.sendStep (h : Calling data old s) (junk : Nat) : ∃ t, s.sendStep junk = some t := by
  have hd := h.1
  cases hc : s.caller with
  | idle | fault =>
    rw [hc] at hd
    cases hd
  | fill =>
    cases hb : s.client.packet.sampleBuffer with
    | none | some => simp only [TxSystem.sendStep, hc, hb, Option.some.injEq, exists_eq']
  | loop | ready | forced | restart | attach | filled =>
    simp only [TxSystem.sendStep, hc, Option.some.injEq, exists_eq']

theorem Calling.sendRank_pos (hi : Inv s) (h : Calling data old s) :
    0 < sendRank s.client s.caller := by
  obtain ⟨t, ht⟩ := h.sendStep 0
  exact Nat.zero_lt_of_lt (sendStep_returns hi h (sendStep_cases ht)).2

theorem run_returns (h : Inv s ∧ (Calling data old s ∨ Returned data old s))
    (hn : ∀ a ∈ acts, ∀ d, a ≠ .send d) (hr : Sys.run step s acts = some t) :
    (Inv t ∧ (Calling data old t ∨ Returned data old t)) ∧
      sendRank t.client t.caller + acts.countP isSendStep ≤ sendRank s.client s.caller := by
  have hstep : ∀ s a t, (Inv s ∧ (Calling data old s ∨ Returned data old s)) →
      (∀ d, a ≠ .send d) → step s a = some t →
        (Inv t ∧ (Calling data old t ∨ Returned data old t)) ∧
          sendRank t.client t.caller + (if isSendStep a then 1 else 0) ≤
            sendRank s.client s.caller := by
    intro s a t h ha hs
    exact step_returns h ha (step_cases hs)
  exact Sys.run_rank hstep h hn hr

/-- Whatever the pump does or fails to do, `Send` returns within seven steps for each packet it
adds to, and there is always a next one. -/
theorem send_returns {b c : Nat} (hb : 0 < b) (hc : 0 < c)
    (hr : Sys.run step (init dn b c) earlier = some s) (hs : step s (.send data) = some s')
    (hn : ∀ a ∈ acts, ∀ d, a ≠ .send d) (hr' : Sys.run step s' acts = some t) :
    (Returned data s.sends t ∧ acts.countP isSendStep ≤
        7 * ((s.client.plen + data.length - 1) / 8160 + 1) + 1) ∨
      (Calling data s.sends t ∧ acts.countP isSendStep <
        7 * ((s.client.plen + data.length - 1) / 8160 + 1) + 1 ∧
        ∀ junk, ∃ u, step t (.sendStep junk) = some u) := by
  have hinv : Inv s := by
    refine Sys.run_invariant (I := Inv) ?_ (init_inv hb hc) hr
    exact fun s a t h hs => step_inv h (step_cases hs)
  have hinv' := step_inv hinv (step_cases hs)
  cases step_cases hs with
  | send hidle hpos hlt =>
    obtain ⟨⟨hi, hcall⟩, hle⟩ := run_returns ⟨hinv', .inl ⟨rfl, rfl⟩⟩ hn hr'
    have hstart : sendRank s.client (.loop data 0) =
        7 * ((s.client.plen + data.length - 1) / 8160 + 1) + 1 := by
      rw [sendRank, Nat.sub_zero, Sys.turns, if_neg (Nat.pos_iff_ne_zero.1 hpos)]
    dsimp only at hle
    rw [hstart] at hle
    rcases hcall with hcall | hcall
    · have hrank := hcall.sendRank_pos hi
      exact .inr ⟨hcall, by omega, hcall.sendStep⟩
    · exact .inl ⟨hcall, by omega⟩

/-- A byte into an empty ring takes six steps. -/
theorem send_returns_byte : ∃ s t, step (init 0 0x2000 2) (.send [7]) = some s ∧
    Sys.run step s (List.replicate 6 (.sendStep 0)) = some t ∧ Returned [7] [] t := by
  obtain ⟨s, t, hs, hr, hc⟩ : ∃ s t, step (init 0 0x2000 2) (.send [7]) = some s ∧
      Sys.run step s (List.replicate 6 (.sendStep 0)) = some t ∧ t.caller = .idle :=
    ⟨_, _, rfl, rfl, rfl⟩
  have hn : ∀ a ∈ List.replicate 6 (Act.sendStep 0), ∀ d, a ≠ .send d := by
    intro a ha d he
    rw [List.eq_of_mem_replicate ha] at he
    cases he
  refine ⟨s, t, hs, hr, ?_⟩
  have hb : 0 < 0x2000 := by decide
  have hb' : 0 < 2 := by decide
  have h0 : Sys.run step (init 0 0x2000 2) [] = some (init 0 0x2000 2) := rfl
  rcases send_returns hb hb' h0 hs hn hr with
    ⟨hret, _⟩ | ⟨hcall, _⟩
  · exact hret
  · have hd := hcall.1
    rw [hc] at hd
    cases hd

end TxSystem
end Avs4000
