import Avs4000.RawRxTrack

namespace Avs4000

/-- The bytes `Read` has read so far. -/
def ReadPc.out : ReadPc → List UInt8
  | .loop out | .copy out _ | .copied out _ | .done out => out

/-- A call of the client rather than of its buffer. -/
def ReceiveFn.OfClient : ReceiveFn → Prop
  | .buffer _ => False
  | .samples _ | .bytes _ => True

namespace RawRxSystem
open Memory
open BlockFifo hiding count
set_option autoImplicit true

/-- `ReceiveSamples` returns how many words it filled, with the bytes of the stream from `pos` on,
and `Receive` does not report more bytes than it wrote. -/
def CallExact (received : List UInt8) (pos : Nat) (c : RawReceiveCall) : Prop :=
  match c.fn with
  | .buffer _ => True
  | .samples count =>
    c.result ≤ count ∧ c.bytes.length = 4 * c.result ∧
      c.bytes = (received.drop pos).take (4 * c.result)
  | .bytes _ => c.result ≤ c.bytes.length

def CallsExact (s : RawRxSystem) : Prop :=
  ∀ pre c post, s.calls = pre ++ c :: post → CallExact s.received (bytesOf pre).length c

/-- A call of the client that looks for bytes in the ring finds none. -/
def FindsNothing (s : RawRxSystem) (a : Act) : Prop :=
  ∀ fn out bs, a = .receiveStep → s.caller = .read fn out (.loop bs) →
    bs.length < fn.len - out.length → fn.OfClient → s.buffer.fifo.empty

/-- The calls stay within the buffers they are given. -/
def CallerFits : BufferReceivePc → Prop
  | .idle => True
  | .loop fn out => fn.InRange ∧ out.length ≤ fn.len
  | .read fn out pc => fn.InRange ∧ (out ++ pc.out).length ≤ fn.len

structure Fits (s : RawRxSystem) : Prop where
  caller : CallerFits s.caller
  calls : ∀ c ∈ s.calls, c.fn.InRange ∧ c.bytes.length ≤ c.fn.len

/-- The running call is one of the client that brings bytes. -/
def CallerMoves : BufferReceivePc → Prop
  | .idle => False
  | .loop fn out => fn.OfClient ∧ out ≠ []
  | .read fn _ (.copy ..) => fn.OfClient
  | .read fn out (.loop bs) | .read fn out (.copied bs _) | .read fn out (.done bs) =>
    fn.OfClient ∧ out ++ bs ≠ []

/-- Some call of the client brings bytes. -/
def Moves (s : RawRxSystem) : Prop :=
  (∃ c ∈ s.calls, c.fn.OfClient ∧ c.bytes ≠ []) ∨ CallerMoves s.caller

theorem calls_fits {s : RawRxSystem} (h : ∀ c ∈ s.calls, c.fn.InRange ∧ c.bytes.length ≤ c.fn.len)
    (hf : fn.InRange) (ho : out.length ≤ fn.len) :
    ∀ c ∈ (s.ret fn out).calls, c.fn.InRange ∧ c.bytes.length ≤ c.fn.len := by
  intro c hc
  rcases List.mem_append.1 hc with hc | hc
  · exact h c hc
  · rw [List.mem_singleton.1 hc]
    exact ⟨hf, ho⟩

theorem receiveStep_fits {s t : RawRxSystem} (h : Fits s) (hs : ReceiveStep s t) : Fits t := by
  have hcaller := h.caller
  cases hs with
  | enter hc | goOn hc | look hc | empty hc | full hc | copied hc =>
    rw [hc] at hcaller
    refine ⟨?_, h.calls⟩
    simpa only [CallerFits, ReadPc.out, List.append_nil] using hcaller
  | finish hc =>
    rw [hc] at hcaller
    exact ⟨trivial, calls_fits h.calls hcaller.1 hcaller.2⟩
  | nothing hc =>
    rw [hc] at hcaller
    rw [CallerFits, ReadPc.out, List.append_nil] at hcaller
    exact ⟨trivial, calls_fits h.calls hcaller.1 hcaller.2⟩
  | @copy fn out bs p amt hc ha =>
    rw [hc] at hcaller
    obtain ⟨hf, hle⟩ := hcaller
    have hamt := (turnAmt_le (fn.len - out.length - bs.length) p.maxAmt).1
    rw [← ha] at hamt
    refine ⟨⟨hf, ?_⟩, h.calls⟩
    simp only [ReadPc.out, List.length_append, Mem.length_load] at hle ⊢
    omega

theorem step_fits {s t : RawRxSystem} (h : Fits s) (hs : Step s a t) : Fits t := by
  cases hs with
  | receive hc hf => exact ⟨⟨hf, Nat.zero_le _⟩, h.calls⟩
  | receiveStep hs => exact receiveStep_fits h hs
  | startNone | startSome | again | closed | data | complete => exact ⟨h.caller, h.calls⟩

/-- The arithmetic in `size_t` is exact for a 32-bit count. -/
theorem samplesLen_eq (h : count < 2 ^ 32) : ReceiveFn.samplesLen count = count := by
  rw [ReceiveFn.samplesLen]
  omega

/-- The result of a call of the client is right only if the call brings nothing. -/
theorem callExact_iff {c : RawReceiveCall} (hf : c.fn.InRange) (hl : c.bytes.length ≤ c.fn.len)
    (received : List UInt8) (pos : Nat) :
    CallExact received pos c ↔ (c.fn.OfClient → c.bytes = []) := by
  obtain ⟨fn, bytes⟩ := c
  cases fn with
  | buffer len => exact ⟨fun _ hn => hn.elim, fun _ => trivial⟩
  | samples count =>
    constructor
    · intro h _
      have hlen := h.2.1
      dsimp only [RawReceiveCall.result, ReceiveFn.result] at hlen
      have hz : bytes.length = 0 := by omega
      exact List.eq_nil_of_length_eq_zero hz
    · intro h
      obtain rfl := h trivial
      exact ⟨Nat.zero_le _, rfl, (List.take_zero ..).symm⟩
  | bytes len =>
    have hlen : len < 2 ^ 32 := hf
    have hcount : len / 4 < 2 ^ 32 := by omega
    dsimp only [ReceiveFn.len] at hl
    rw [samplesLen_eq hcount] at hl
    constructor
    · intro h _
      dsimp only [CallExact, RawReceiveCall.result, ReceiveFn.result] at h
      have hz : bytes.length = 0 := by omega
      exact List.eq_nil_of_length_eq_zero hz
    · intro h
      obtain rfl := h trivial
      exact Nat.zero_le _

theorem callsExact_iff {s : RawRxSystem} (h : Fits s) (hi : s.caller = .idle) :
    CallsExact s ↔ ¬Moves s := by
  constructor
  · rintro he (⟨c, hc, hclient, hne⟩ | hm)
    · obtain ⟨pre, post, hsplit⟩ := List.append_of_mem hc
      obtain ⟨hf, hl⟩ := h.calls c hc
      exact hne ((callExact_iff hf hl _ _).1 (he pre c post hsplit) hclient)
    · rw [hi] at hm
      exact hm
  · intro hn pre c post hsplit
    have hc : c ∈ s.calls := hsplit ▸ List.mem_append_right _ (List.mem_cons_self ..)
    obtain ⟨hf, hl⟩ := h.calls c hc
    refine (callExact_iff hf hl _ _).2 fun hclient => ?_
    by_contra hne
    exact hn (.inl ⟨c, hc, hclient, hne⟩)

theorem moves_ret {s : RawRxSystem} :
    Moves (s.ret fn out) ↔
      (∃ c ∈ s.calls, c.fn.OfClient ∧ c.bytes ≠ []) ∨ fn.OfClient ∧ out ≠ [] := by
  simp only [Moves, ret, CallerMoves, or_false, List.mem_append, List.mem_singleton, or_and_right,
    exists_or, exists_eq_left]

theorem receiveStep_moves {s t : RawRxSystem} (h : Inv s) (hs : ReceiveStep s t) :
    Moves t ↔ Moves s ∨ ¬FindsNothing s .receiveStep := by
  have hcaller := h.caller
  have hskip (hn : ∀ fn out bs, s.caller = .read fn out (.loop bs) →
      bs.length < fn.len - out.length → fn.OfClient → s.buffer.fifo.empty)
      (hm : Moves t ↔ Moves s) : Moves t ↔ Moves s ∨ ¬FindsNothing s .receiveStep := by
    have hf : FindsNothing s .receiveStep := fun fn out bs _ => hn fn out bs
    rw [hm, or_iff_left (not_not.2 hf)]
  cases hs with
  | enter hc | goOn hc | copied hc =>
    refine hskip ?_ ?_
    · intro fn out bs he
      cases hc.symm.trans he
    · simp only [Moves, hc, CallerMoves, List.append_nil]
  | finish hc =>
    refine hskip ?_ ?_
    · intro fn out bs he
      cases hc.symm.trans he
    · rw [moves_ret]
      simp only [Moves, hc, CallerMoves]
  | nothing hc =>
    refine hskip ?_ ?_
    · intro fn out bs he
      cases hc.symm.trans he
    · rw [moves_ret]
      simp only [Moves, hc, CallerMoves, List.append_nil]
  | full hc hge =>
    refine hskip ?_ ?_
    · intro fn out bs he hlt
      cases hc.symm.trans he
      exact absurd hlt (Nat.not_lt_of_le hge)
    · simp only [Moves, hc, CallerMoves]
  | empty hc hlt hr =>
    refine hskip ?_ ?_
    · exact fun _ _ _ _ _ _ => (readStart_none hr).2.2
    · simp only [Moves, hc, CallerMoves]
  | @copy fn out bs p amt hc ha =>
    rw [hc] at hcaller
    obtain ⟨hlt, hp⟩ := hcaller
    have hpos := turnAmt_pos (Nat.sub_pos_of_lt hlt) (h.blocks.reading h.fifo hp)
    have hne : out ++ (bs ++ s.mem.load p.ptr amt) ≠ [] := by
      intro he
      have hlen := congrArg List.length he
      simp only [List.length_append, Mem.length_load, List.length_nil] at hlen
      omega
    refine hskip ?_ ?_
    · intro fn out bs he
      cases hc.symm.trans he
    · simp only [Moves, hc, CallerMoves, hne, ne_eq, not_false_eq_true, and_true]
  | @look fn out bs f' p hc hlt hr =>
    have hpos := (readStart_cases h.fifo hr).1
    have hempty : ¬s.buffer.fifo.empty := by
      rw [h.fifo.empty_iff]
      exact Nat.pos_iff_ne_zero.1 hpos
    have hfind : FindsNothing s .receiveStep ↔ ¬fn.OfClient := by
      constructor
      · exact fun hf hclient => hempty (hf fn out bs rfl hc hlt hclient)
      · intro hn fn' out' bs' _ he _ hclient
        cases hc.symm.trans he
        exact absurd hclient hn
    rw [hfind, not_not]
    simp only [Moves, hc, CallerMoves, or_assoc]
    exact or_congr_right ⟨.inr, fun hm => hm.elim And.left id⟩

theorem step_moves {s t : RawRxSystem} (h : Inv s) (hs : Step s a t) :
    Moves t ↔ Moves s ∨ ¬FindsNothing s a := by
  have hskip (ha : a ≠ .receiveStep) (hm : Moves t ↔ Moves s) :
      Moves t ↔ Moves s ∨ ¬FindsNothing s a := by
    have hf : FindsNothing s a := fun _ _ _ he => absurd he ha
    rw [hm, or_iff_left (not_not.2 hf)]
  cases hs with
  | receiveStep hs => exact receiveStep_moves h hs
  | receive hc hf =>
    refine hskip (by rintro ⟨⟩) ?_
    simp only [Moves, hc, CallerMoves, ne_eq, not_true_eq_false, and_false]
  | startNone | startSome | again | closed | data | complete => exact hskip (by rintro ⟨⟩) .rfl

/-- The calls of the client return what they should exactly in the runs in which they find nothing
in the ring. -/
theorem samples_exact_iff {b c : Nat} (hb : 1 ≤ b) (hc : 2 ≤ c)
    (hr : Sys.run step (init stream b c) acts = some s) (hi : s.caller = .idle) :
    CallsExact s ↔ Sys.Along step FindsNothing (init stream b c) acts := by
  have hinv : Inv (init stream b c) := init_inv hb (Nat.zero_lt_of_lt hc) stream
  have hfits : Fits s := by
    refine Sys.run_invariant (I := Fits) (fun s a t h hs => step_fits h (step_cases hs)) ?_ hr
    exact ⟨trivial, fun c hc => False.elim (List.not_mem_nil hc)⟩
  have hstart : ¬Moves (init stream b c) := by
    rintro (⟨c, hc, _⟩ | hm)
    · exact List.not_mem_nil hc
    · exact hm
  rw [callsExact_iff hfits hi]
  exact Sys.not_iff_along (I := Inv) (fun s a t h hs => step_inv h (step_cases hs))
    (fun s a t h hs => step_moves h (step_cases hs)) hinv hstart hr

/-- A call finds nothing before anything arrives. -/
theorem samples_exact_iff_early : ∃ s,
    Sys.run step (init [7, 8] 2 2)
      [.receive (.samples 1), .receiveStep, .receiveStep, .receiveStep] = some s ∧
      CallsExact s := by
  obtain ⟨s, hs, hi⟩ : ∃ s, Sys.run step (init [7, 8] 2 2)
      [.receive (.samples 1), .receiveStep, .receiveStep, .receiveStep] = some s ∧
      s.caller = .idle := ⟨_, rfl, rfl⟩
  refine ⟨s, hs, (samples_exact_iff (by decide) (by decide) hs hi).2 ?_⟩
  refine .cons ?_ rfl (.cons ?_ rfl (.cons ?_ rfl (.cons ?_ rfl trivial)))
  · intro _ _ _ ha
    cases ha
  · intro _ _ _ _ he
    cases he
  · exact fun _ _ _ _ _ _ _ => rfl
  · intro _ _ _ _ he
    cases he

theorem receive_two {s : RawRxSystem} (hc : s.caller = .idle) (hd : s.buffer.done = false)
    (hr : s.buffer.fifo.readStart = (f', some p)) (hm : 2 ≤ p.maxAmt) :
    ∃ t, Sys.run step s (.receive (.samples 2) :: List.replicate 7 .receiveStep) = some t ∧
      t.caller = .idle ∧ t.calls = s.calls ++ [⟨.samples 2, s.mem.load p.ptr 2⟩] := by
  have hlen : (ReceiveFn.samples 2).len = 2 := rfl
  have hamt : BlockFifo.turnAmt 2 p.maxAmt = 2 := if_neg (Nat.not_lt.2 hm)
  let bs := s.mem.load p.ptr 2
  have hbs : bs.length = 2 := Mem.length_load ..
  let s₁ := { s with caller := .loop (.samples 2) [] }
  have h₁ : step s (.receive (.samples 2)) = some s₁ := by
    simp only [step, hc, s₁]
    rfl
  let s₂ := { s with caller := .read (.samples 2) [] (.loop []) }
  have h₂ : step s₁ .receiveStep = some s₂ := by
    simp only [step, receiveStep, s₁, s₂, hd, hlen, List.length_nil, Bool.not_false, true_and,
      Nat.zero_lt_two, if_true]
  let s₃ := { s with buffer.fifo := f', caller := .read (.samples 2) [] (.copy [] p) }
  have h₃ : step s₂ .receiveStep = some s₃ := by
    simp only [step, receiveStep, s₂, s₃, BlockFifo.readStep, hlen, hr, List.length_nil,
      Nat.sub_zero, Nat.zero_lt_two, if_true]
  let s₄ := { s₃ with caller := .read (.samples 2) [] (.copied bs 2) }
  have h₄ : step s₃ .receiveStep = some s₄ := by
    simp only [step, receiveStep, s₃, s₄, BlockFifo.readStep, hlen, hamt, List.length_nil,
      Nat.sub_zero, List.nil_append, bs]
  let s₅ := { s₃ with
    buffer.fifo := f'.readComplete 2, caller := .read (.samples 2) [] (.loop bs) }
  have h₅ : step s₄ .receiveStep = some s₅ := by
    simp only [step, receiveStep, s₄, s₃, s₅, BlockFifo.readStep]
  let s₆ := { s₅ with caller := .read (.samples 2) [] (.done bs) }
  have h₆ : step s₅ .receiveStep = some s₆ := by
    simp only [step, receiveStep, s₅, s₆, BlockFifo.readStep, hlen, hbs, List.length_nil,
      Nat.sub_zero, Nat.lt_irrefl, if_false]
  let s₇ := { s₅ with caller := .loop (.samples 2) bs }
  have h₇ : step s₆ .receiveStep = some s₇ := by
    simp only [step, receiveStep, s₆, s₇, hbs, List.nil_append, OfNat.ofNat_ne_zero, if_false]
  have h₈ : step s₇ .receiveStep = some (s₇.ret (.samples 2) bs) := by
    simp only [step, receiveStep, s₇, hlen, hbs, Nat.lt_irrefl, and_false, if_false]
  refine ⟨s₇.ret (.samples 2) bs, ?_, rfl, rfl⟩
  simp only [List.replicate, Sys.run, h₁, h₂, h₃, h₄, h₅, h₆, h₇, h₈, Option.bind_some]

theorem pump_block (hlen : data.length = n + 1) : ∃ s r,
    Sys.run step (init data (n + 1) 64)
      [.readDataStart, .got (.data (n + 1)), .readDataComplete] = some s ∧
    s.caller = .idle ∧ s.buffer.done = false ∧ s.calls = [] ∧ r.maxAmt = n + 1 ∧
    s.buffer.fifo.readStart = (s.buffer.fifo.readStart.1, some r) := by
  let f := BlockFifo.new (n + 1) 64
  have hw : f.writeStart = (f.writeStart.1, some ⟨⟨0, 0⟩, n + 1⟩) := rfl
  let s₁ := { init data (n + 1) 64 with
    buffer.fifo := f.writeStart.1, pump := .holding ⟨⟨0, 0⟩, n + 1⟩ }
  have h₁ : step (init data (n + 1) 64) .readDataStart = some s₁ := rfl
  let s₂ := { s₁ with
    pump := .got (n + 1), mem := s₁.mem.store ⟨0, 0⟩ (data.take (n + 1))
    incoming := data.drop (n + 1), received := data.take (n + 1) }
  have h₂ : step s₁ (.got (.data (n + 1))) = some s₂ := by
    have hn : n + 1 ≤ s₁.incoming.length := Nat.le_of_eq hlen.symm
    simp only [step, s₁, hn, Nat.le_refl, and_self, if_true]
    rfl
  let s₃ := { s₂ with buffer := s₂.buffer.readDataComplete (n + 1), pump := .idle }
  have h₃ : step s₂ .readDataComplete = some s₃ := rfl
  refine ⟨s₃, ⟨⟨0, 0⟩, n + 1⟩, ?_, rfl, rfl, rfl, rfl, ?_⟩
  · simp only [Sys.run, h₁, h₂, h₃, Option.bind_some]
  · simp [s₃, s₂, s₁, f, SocketRxBuffer.readDataComplete, readStart, writeComplete, writeStart,
      BlockFifo.new, setBlk, full, empty, pinc, Block.reset]

/-- A call for two samples returns two, with the bytes of half a sample. -/
theorem samples_counts_bytes : ∃ s,
    Sys.run step (init (List.replicate 0x8000 7) 0x8000 64)
      ([.readDataStart, .got (.data 0x8000), .readDataComplete] ++
        .receive (.samples 2) :: List.replicate 7 .receiveStep) = some s ∧
    s.caller = .idle ∧ ¬CallsExact s := by
  have hdata : (List.replicate 0x8000 (7 : UInt8)).length = 0x7fff + 1 := List.length_replicate
  obtain ⟨s, r, hs, hc, hd, hl, hm, hr⟩ := pump_block hdata
  obtain ⟨t, ht, hct, hcalls⟩ := receive_two hc hd hr (hm ▸ by decide)
  refine ⟨t, Sys.run_append_eq_some.2 ⟨s, hs, ht⟩, hct, fun h => ?_⟩
  have hlen : (s.mem.load r.ptr 2).length = 2 := Mem.length_load ..
  have hone : t.calls = [] ++ ⟨.samples 2, s.mem.load r.ptr 2⟩ :: [] := hl ▸ hcalls
  have hexact : (s.mem.load r.ptr 2).length = 4 * (s.mem.load r.ptr 2).length :=
    (h [] _ [] hone).2.1
  omega

end RawRxSystem
end Avs4000
