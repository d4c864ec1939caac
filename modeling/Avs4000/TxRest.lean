import Avs4000.RxBlocks
import Avs4000.TxFlush
import Avs4000.TxPump
import Avs4000.TxReturns
import Avs4000.TxWireFormat

namespace Avs4000
namespace TxSystem
open BlockFifo hiding count
open TcpTxSignalClient (pktSize complete)
set_option autoImplicit true

/-- No call is running, and the pump finds no block to send. -/
structure Drained (s : TxSystem) : Prop where
  caller : s.caller = .idle
  pump : s.pump = .idle
  count : s.client.buffer.fifo.count = 0

/-- No other `Send` and no `Flush`, and the socket neither fails nor closes. -/
def Act.Goes : Act → Prop
  | .send _ | .flush | .sent .error | .sent (.accepted 0) => False
  | _ => True

/-- The pump runs, and is never given nothing to send. -/
structure Going (s : TxSystem) : Prop where
  inv : Inv s
  sends : Sends s
  done : s.client.buffer.done = false

theorem step_going (h : Going s) (ha : a.Goes) (hs : Step s a t) : Going t := by
  refine ⟨step_inv h.inv hs, step_sends h.inv h.sends hs, Bool.eq_false_iff.2 fun hd => ?_⟩
  rcases step_done hs hd with hd | rfl | rfl
  · exact absurd (h.done.symm.trans hd) Bool.false_ne_true
  · exact ha
  · exact ha

theorem run_going (h : Going s) (ha : ∀ a ∈ as, a.Goes) (hr : Sys.run step s as = some t) :
    Going t :=
  Sys.run_induction (fun _ _ _ h ha hs => step_going h ha (step_cases hs)) h
    (Sys.along_of_forall ha s) hr

theorem step_taken (hi : Inv s) (hs : Step s a t) : s.taken <+: t.taken := by
  cases hs with
  | send hc | flush hc =>
    rw [taken_eq hc]
    exact (List.prefix_append_right_inj _).2 List.nil_prefix
  | sendStep junk hs =>
    cases hs with
    | enter hc | goOn hc | short hc | force hc | attach hc | fill hc =>
      rw [taken_eq hc]
      exact List.prefix_rfl
    | timeout hc | finish hc =>
      rw [taken_eq hc, taken_ret]
      exact List.prefix_rfl
    | noRoom hc =>
      rw [taken_ret]
      obtain hc | ⟨_, hc⟩ := hc
      · exact taken_eq hc ▸ List.prefix_rfl
      · exact taken_eq hc ▸ List.prefix_rfl
    | room hc =>
      obtain hc | ⟨_, hc⟩ := hc
      · exact taken_eq hc ▸ List.prefix_rfl
      · exact taken_eq hc ▸ List.prefix_rfl
    | fault hc hb => exact absurd hb (hi.sampleBuffer_ne_none hc)
    | filled hc => exact ⟨_, (taken_filled hc).symm⟩
  | startNone | startSome | again | closed | accepted | complete => exact List.prefix_rfl

theorem run_taken (h : Going s) (ha : ∀ a ∈ as, a.Goes) (hr : Sys.run step s as = some t) :
    s.taken <+: t.taken := by
  refine (Sys.run_induction (I := fun u => Going u ∧ s.taken <+: u.taken) ?_
    ⟨h, List.prefix_rfl⟩ (Sys.along_of_forall ha s) hr).2
  intro u a v ⟨hu, hpre⟩ ha hs
  exact ⟨step_going hu ha (step_cases hs), hpre.trans (step_taken hu.inv (step_cases hs))⟩

theorem Going.return (h : Going s) : ∃ as t,
    (∀ a ∈ as, a.Goes) ∧ Sys.run step s as = some t ∧ t.caller = .idle := by
  have hadv : ∀ s, Going s → s.caller = .idle ∨ ∃ as t, as.length ≤ 1 ∧ (∀ a ∈ as, a.Goes) ∧
      Sys.run step s as = some t ∧ Going t ∧
        sendRank t.client t.caller < sendRank s.client s.caller := by
    intro s h
    by_cases hc : s.caller = .idle
    · exact .inl hc
    obtain ⟨data, hd⟩ : ∃ data, s.caller.Sends data := by
      have hcaller := h.inv.caller
      cases hpc : s.caller with
      | idle => exact absurd hpc hc
      | fault =>
        rw [hpc] at hcaller
        exact hcaller.elim
      | loop | ready | forced | restart | attach | fill | filled => exact ⟨_, rfl⟩
    have hcall : Calling data s.sends s := ⟨hd, rfl⟩
    obtain ⟨t, ht⟩ := hcall.sendStep 0
    have hlt := (sendStep_returns h.inv hcall (sendStep_cases ht)).2
    have hgoes : (Act.sendStep 0).Goes := trivial
    have hs : Step s (.sendStep 0) t := .sendStep 0 (sendStep_cases ht)
    exact .inr ⟨[.sendStep 0], t, Nat.le_refl 1, fun a ha => List.mem_singleton.1 ha ▸ hgoes,
      Sys.run_cons_eq_some.2 ⟨t, ht, rfl⟩, step_going h hgoes hs, hlt⟩
  obtain ⟨as, t, _, has, hr, hc, _⟩ := Sys.exists_rest hadv h
  exact ⟨as, t, has, hr, hc⟩

theorem exists_idle (s : TxSystem) : ∃ as t,
    (∀ a ∈ as, a.Goes) ∧ Sys.run step s as = some t ∧ t.caller = s.caller ∧ t.pump = .idle := by
  cases hp : s.pump with
  | idle => exact ⟨[], s, nofun, rfl, rfl, hp⟩
  | holding r =>
    refine ⟨[.sent .again], { s with pump := .idle }, fun a ha => ?_, ?_, rfl, rfl⟩
    · exact List.mem_singleton.1 ha ▸ trivial
    · simp only [Sys.run, step, hp]
      rfl
  | sent rval =>
    refine ⟨[.writeDataComplete], { s with
      client.buffer := s.client.buffer.writeDataComplete rval, pump := .idle }, fun a ha => ?_, ?_,
      rfl, rfl⟩
    · exact List.mem_singleton.1 ha ▸ trivial
    · simp only [Sys.run, step, hp]
      rfl

/-- The pump sends the rest of the oldest block. -/
theorem Going.block (h : Going s) (hp : s.pump = .idle) (hn : s.client.buffer.fifo.count ≠ 0) :
    ∃ as t, as.length ≤ 3 ∧ (∀ a ∈ as, a.Goes) ∧ Sys.run step s as = some t ∧
      t.caller = s.caller ∧ t.pump = .idle ∧
      t.client.buffer.fifo.count < s.client.buffer.fifo.count := by
  have hfifo := h.inv.fifo
  obtain ⟨f', r, hs⟩ : ∃ f' r, s.client.buffer.fifo.readStart = (f', some r) := by
    rcases hs : s.client.buffer.fifo.readStart with ⟨f', _ | r⟩
    · exact absurd (hfifo.empty_iff.1 (readStart_none hs).2.2) hn
    · exact ⟨f', r, rfl⟩
  have hinv := readStart_inv hfifo hs
  have hreading := (readStart_cases hfifo hs).2.2
  obtain ⟨n, hm⟩ := Nat.exists_eq_succ_of_ne_zero
    (Nat.pos_iff_ne_zero.1 ((h.sends.blocks.readStart hfifo hs).reading hinv hreading))
  let s₁ := { s with client.buffer.fifo := f', pump := .holding r }
  have h₁ : step s .writeDataStart = some s₁ := by
    simp only [step, hp, h.done, SocketTxBuffer.writeDataStart, hs, Bool.false_eq_true, if_false,
      s₁]
  let s₂ := { s₁ with pump := .sent (n + 1), wire := s.wire ++ s.mem.load r.ptr (n + 1) }
  have h₂ : step s₁ (.sent (.accepted (n + 1))) = some s₂ := by
    have hle : n + 1 ≤ r.maxAmt := Nat.le_of_eq hm.symm
    simp only [step, s₁, hle, if_true, SocketTxBuffer.writeDataSent, s₂]
  let s₃ := { s₂ with client.buffer := s₂.client.buffer.writeDataComplete (n + 1), pump := .idle }
  have h₃ : step s₂ .writeDataComplete = some s₃ := by simp only [step, s₂, s₃]
  refine ⟨[.writeDataStart, .sent (.accepted (n + 1)), .writeDataComplete], s₃, Nat.le_refl 3,
    ?_, ?_, rfl, rfl, ?_⟩
  · intro a ha
    simp only [List.mem_cons, List.not_mem_nil, or_false] at ha
    rcases ha with rfl | rfl | rfl <;> trivial
  · simp only [Sys.run, h₁, h₂, h₃, Option.bind_some]
  · have hcount : f'.count = s.client.buffer.fifo.count := by
      obtain ⟨_, rfl, _⟩ := readStart_cases hfifo hs
      rfl
    have hclose := congrArg BlockFifo.count (readComplete_close hreading hinv hm.symm)
    change (f'.readComplete (n + 1)).count < _
    rw [hclose, ← hcount]
    exact Nat.sub_lt (hcount.symm ▸ Nat.pos_iff_ne_zero.2 hn) Nat.zero_lt_one

/-- From any state the sender can put on the wire all blocks that are closed. -/
theorem Going.drain (h : Going s) : ∃ as t,
    (∀ a ∈ as, a.Goes) ∧ Sys.run step s as = some t ∧ t.Drained := by
  have hadv : ∀ s, (Going s ∧ s.caller = .idle ∧ s.pump = .idle) →
      s.client.buffer.fifo.count = 0 ∨ ∃ as t, as.length ≤ 3 ∧ (∀ a ∈ as, a.Goes) ∧
        Sys.run step s as = some t ∧ (Going t ∧ t.caller = .idle ∧ t.pump = .idle) ∧
          t.client.buffer.fifo.count < s.client.buffer.fifo.count := by
    rintro s ⟨h, hc, hp⟩
    by_cases hn : s.client.buffer.fifo.count = 0
    · exact .inl hn
    obtain ⟨as, t, hlen, has, hr, hc', hp', hlt⟩ := h.block hp hn
    exact .inr ⟨as, t, hlen, has, hr, ⟨run_going h has hr, hc'.trans hc, hp'⟩, hlt⟩
  obtain ⟨as, t, has, hr, hc⟩ := h.return
  have ht := run_going h has hr
  obtain ⟨bs, u, hbs, hr', hc', hp⟩ := exists_idle t
  obtain ⟨cs, v, _, hcs, hr'', hz, _, hc'', hp'⟩ :=
    Sys.exists_rest hadv ⟨run_going ht hbs hr', hc'.trans hc, hp⟩
  refine ⟨as ++ bs ++ cs, v, fun a ha => ?_, ?_, hc'', hp', hz⟩
  · rcases List.mem_append.1 ha with ha | ha
    · exact (List.mem_append.1 ha).elim (has a) (hbs a)
    · exact hcs a ha
  · exact Sys.run_append_eq_some.2 ⟨u, Sys.run_append_eq_some.2 ⟨t, hr, hr'⟩, hr''⟩

/-- The blocks have the size they were made with, and hold whole packets. -/
structure WholePackets (b : Nat) (f : BlockFifo) : Prop where
  size : f.blkSize = b
  len : ∀ i, (f.blk i).len % 0x2000 = 0

theorem WholePackets.shrink (h : WholePackets b f) (hs : f'.blkSize = f.blkSize)
    (hl : ∀ i, (f'.blk i).len = (f.blk i).len ∨ (f'.blk i).len = 0) : WholePackets b f' := by
  refine ⟨hs.trans h.size, fun i => ?_⟩
  rcases hl i with he | he <;> rw [he]
  exact h.len i

theorem WholePackets.complete (h : WholePackets b f) (hw : f.Writing r) :
    WholePackets b (f.writeComplete pktSize) := by
  refine ⟨(writeComplete_tail f pktSize).2.2.1.trans h.size, fun i => ?_⟩
  rw [writeComplete_len hw]
  split
  · exact (Nat.add_mod_right ..).trans (h.len i)
  · exact h.len i

theorem sendStep_wholePackets (hi : Inv s) (h : WholePackets b s.client.buffer.fifo)
    (hs : SendStep s t) : WholePackets b t.client.buffer.fifo := by
  cases hs with
  | enter | timeout | goOn | finish | attach | fill | fault => exact h
  | short hc hw | noRoom hc hw | room hc hw =>
    exact h.shrink (writeStart_blkSize hi.fifo hw) (writeStart_len hi.fifo hw)
  | force hc =>
    have hsize := (writeComplete_tail s.client.buffer.fifo 0).2.2.1
    exact h.shrink hsize fun i => .inl (force_len hi.fifo i)
  | filled hc =>
    have hcaller := hi.caller
    rw [hc] at hcaller
    obtain ⟨_, ⟨_, r, _, hr, _⟩, _⟩ := hcaller
    rw [complete]
    split
    · exact h.complete hr
    · exact h

theorem step_wholePackets (hi : Inv s) (h : WholePackets b s.client.buffer.fifo)
    (hs : Step s a t) : WholePackets b t.client.buffer.fifo := by
  cases hs with
  | send | again | closed | accepted => exact h
  | sendStep junk hs => exact sendStep_wholePackets hi h hs
  | flush hc =>
    refine h.shrink rfl fun i => ?_
    rcases reset_blk s.client.buffer.fifo i with hr | hr
    · exact .inr (congrArg Block.len hr)
    · exact .inl (congrArg Block.len hr)
  | startNone hp hd hr =>
    obtain ⟨rfl, _⟩ := readStart_none hr
    exact h
  | startSome hp hd hr =>
    obtain ⟨_, rfl, _⟩ := readStart_cases hi.fifo hr
    exact ⟨h.size, h.len⟩
  | complete hp =>
    have hpump := hi.pump
    rw [hp] at hpump
    exact h.shrink (hpump.sameFill hi.fifo).blkSize fun i => .inl (readComplete_len hpump i)

theorem init_wholePackets (dn : UInt8) (b c : Nat) :
    WholePackets b (init dn b c).client.buffer.fifo := ⟨rfl, fun _ => rfl⟩

theorem WholePackets.filled (h : WholePackets b f) (hi : f.Inv) :
    ∃ k, f.filled = 0x2000 * k ∧ k ≤ (b - 1) / 0x2000 := by
  have hlt := hi.filled_lt
  rw [h.size] at hlt
  have hmod : f.filled % 0x2000 = 0 := by
    rw [BlockFifo.filled]
    cases f.outBlk with
    | none => rfl
    | some o => exact h.len o
  exact ⟨f.filled / 0x2000, by omega, by omega⟩

end TxSystem
end Avs4000
