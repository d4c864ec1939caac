import Avs4000.Lib.Queue
import Avs4000.Lib.Run
import Avs4000.BlockFifoConsumer

namespace Avs4000
open Memory BlockFifo
set_option autoImplicit true

/-- One producer and one consumer on a `BlockFifo`, with the regions they hold between a start
and its completion. `written` and `consumed` record what they completed. -/
structure FifoClients where
  fifo : BlockFifo
  mem : Mem UInt8
  wr : Option Region
  rd : Option Region
  written : List UInt8
  consumed : List UInt8

namespace FifoClients

def init (blkSize blkCount : Nat) : FifoClients where
  fifo := .new blkSize blkCount
  mem _ := 0
  wr := none
  rd := none
  written := []
  consumed := []

inductive Act
  | writeStart
  | fill (off : Nat) (bs : List UInt8)
  | writeComplete (amt : Nat)
  | readStart
  | readComplete (amt : Nat)

/-- The producer stores anywhere in the region it holds and completes at most `maxAmt`; so does
the consumer. -/
def step (s : FifoClients) : Act → Option FifoClients
  | .writeStart => some { s with fifo := s.fifo.writeStart.1, wr := s.fifo.writeStart.2 }
  | .fill off bs => s.wr.bind fun r =>
    if off + bs.length ≤ r.maxAmt then some { s with mem := s.mem.store (r.ptr + off) bs } else none
  | .writeComplete amt => s.wr.bind fun r =>
    if amt ≤ r.maxAmt then
      some { s with
        fifo := s.fifo.writeComplete amt, wr := none
        written := s.written ++ s.mem.load r.ptr amt }
    else none
  | .readStart => some { s with fifo := s.fifo.readStart.1, rd := s.fifo.readStart.2 }
  | .readComplete amt => s.rd.bind fun r =>
    if amt ≤ r.maxAmt then
      some { s with
        fifo := s.fifo.readComplete amt, rd := none
        consumed := s.consumed ++ s.mem.load r.ptr amt }
    else none

/-- The regions held are the ones the ring would hand out again. -/
structure Inv (s : FifoClients) : Prop where
  fifo : s.fifo.Inv
  wr : ∀ r, s.wr = some r → s.fifo.Writing r
  rd : ∀ r, s.rd = some r → s.fifo.Reading r

/-- The queue a state stands for. -/
structure Abs (s : FifoClients) (q : Queue UInt8) : Prop where
  written : q.written = s.written
  taken : q.written.take q.taken = s.consumed
  front : q.front = s.fifo.unread s.mem
  pending : q.pending = s.fifo.filling s.mem

theorem init_inv {s c : Nat} (hs : 0 < s) (hc : 0 < c) : Inv (init s c) :=
  ⟨new_inv hs hc, nofun, nofun⟩

theorem init_abs (s c : Nat) : Abs (init s c) (.empty UInt8) := ⟨rfl, rfl, rfl, rfl⟩

theorem Inv.apart (h : Inv s) (hw : s.wr = some w) (hr : s.rd = some r) (off n k : Nat) :
    Apart (w.ptr + off) n r.ptr k := by
  have hw' := h.wr w hw
  have hr' := h.rd r hr
  obtain ⟨ho, rfl⟩ := hw'
  obtain ⟨hi, rfl⟩ := hr'
  exact .inl (h.fifo.tail_ne_out (h.fifo.inn _ hi).2 ho)

theorem step_inv (h : Inv s) (hs : step s a = some t) : Inv t := by
  cases a with
  | writeStart =>
    rcases he : s.fifo.writeStart with ⟨f', r⟩
    simp only [step, he, Option.some.injEq] at hs
    subst hs
    cases r with
    | none =>
      obtain ⟨rfl, _, _⟩ := writeStart_none he
      exact ⟨h.fifo, nofun, h.rd⟩
    | some r =>
      refine ⟨writeStart_inv h.fifo he, fun r' hr' => ?_,
        fun r' hr' => (writeStart_same h.fifo he).reading h.fifo (h.rd r' hr')⟩
      cases hr'
      exact writeStart_writing h.fifo he
  | fill off bs =>
    obtain ⟨r, hr, hs⟩ := Option.bind_eq_some_iff.1 hs
    split at hs
    · cases hs
      exact ⟨h.fifo, h.wr, h.rd⟩
    · cases hs
  | writeComplete amt =>
    obtain ⟨r, hr, hs⟩ := Option.bind_eq_some_iff.1 hs
    split at hs
    · next ha =>
      cases hs
      have hw := h.wr r hr
      exact ⟨writeComplete_inv h.fifo hw ha, nofun,
        fun r' hr' => writeComplete_reading h.fifo hw (h.rd r' hr')⟩
    · cases hs
  | readStart =>
    rcases he : s.fifo.readStart with ⟨f', r⟩
    simp only [step, he, Option.some.injEq] at hs
    subst hs
    cases r with
    | none =>
      obtain ⟨rfl, _, _⟩ := readStart_none he
      exact ⟨h.fifo, h.wr, nofun⟩
    | some r =>
      refine ⟨readStart_inv h.fifo he,
        fun r' hr' => (readStart_same h.fifo he).writing (h.wr r' hr'), fun r' hr' => ?_⟩
      cases hr'
      exact (readStart_cases h.fifo he).2.2
  | readComplete amt =>
    obtain ⟨r, hr, hs⟩ := Option.bind_eq_some_iff.1 hs
    split at hs
    · next ha =>
      cases hs
      have hd := h.rd r hr
      exact ⟨readComplete_inv h.fifo hd ha,
        fun r' hr' => (readComplete_same h.fifo hd).writing (h.wr r' hr'), nofun⟩
    · cases hs

theorem writeComplete_abs (h : Inv s) (hq : Abs s q) (hr : s.wr = some r) (ha : amt ≤ r.maxAmt) :
    ∃ q', Queue.Steps q q' ∧ Abs { s with
      fifo := s.fifo.writeComplete amt, wr := none
      written := s.written ++ s.mem.load r.ptr amt } q' := by
  have hw := h.wr r hr
  have hcont := writeComplete_content h.fifo hw ha s.mem
  have hpush : Queue.Steps q (q.push (s.mem.load r.ptr amt)) := .single (.push q _)
  have hlen : q.taken ≤ q.written.length := Nat.le_trans q.taken_le q.published_le
  have htaken : (q.written ++ s.mem.load r.ptr amt).take q.taken = s.consumed := by
    rw [List.take_append_of_le_length hlen, hq.taken]
  by_cases hc : amt = 0 ∨ amt = r.maxAmt
  · have hf : (s.fifo.writeComplete amt).filling s.mem = [] := by
      rw [writeComplete_close hw h.fifo hc]
      rfl
    rw [hf, List.append_nil] at hcont
    refine ⟨_, hpush.tail (.publish _), congrArg (· ++ _) hq.written, htaken, ?_, ?_⟩
    · rw [Queue.front_publish, Queue.front_push, Queue.pending_push, hq.front, hq.pending, hcont,
        List.append_assoc]
    · rw [Queue.pending_publish, hf]
  · rw [not_or] at hc
    have hu : (s.fifo.writeComplete amt).unread s.mem = s.fifo.unread s.mem := by
      have hs := writeComplete_sameRing h.fifo hw hc.1 (Nat.lt_of_le_of_ne ha hc.2)
      exact hs.unread s.mem
    rw [hu, List.append_assoc] at hcont
    refine ⟨_, hpush, congrArg (· ++ _) hq.written, htaken, ?_, ?_⟩
    · rw [Queue.front_push, hq.front, hu]
    · rw [Queue.pending_push, hq.pending, List.append_cancel_left hcont]

theorem readComplete_abs (h : Inv s) (hq : Abs s q) (hr : s.rd = some r) (ha : amt ≤ r.maxAmt) :
    ∃ q', Queue.Steps q q' ∧ Abs { s with
      fifo := s.fifo.readComplete amt, rd := none
      consumed := s.consumed ++ s.mem.load r.ptr amt } q' := by
  have hd := h.rd r hr
  have hcont := readComplete_content h.fifo hd ha s.mem
  have hn : amt ≤ q.front.length := by
    rw [hq.front, hcont, List.length_append, Mem.length_load]
    exact Nat.le_add_right ..
  have htake : q.front.take amt = s.mem.load r.ptr amt := by
    rw [hq.front, hcont, List.take_left' (Mem.length_load ..)]
  refine ⟨_, .single (.take q amt hn), hq.written, ?_, ?_, ?_⟩
  · change q.written.take (q.taken + amt) = _
    rw [Queue.written_take q hn, hq.taken, htake]
  · rw [Queue.front_take, hq.front, hcont, List.drop_left' (Mem.length_load ..)]
  · rw [Queue.pending_take, hq.pending]
    exact ((readComplete_same h.fifo hd).filling h.fifo s.mem).symm

/-- Every operation on the ring is a sequence of queue operations. -/
theorem step_simulates (h : Inv s) (hq : Abs s q) (hs : step s a = some t) :
    ∃ q', Queue.Steps q q' ∧ Abs t q' := by
  cases a with
  | writeStart =>
    rcases he : s.fifo.writeStart with ⟨f', r⟩
    simp only [step, he, Option.some.injEq] at hs
    subst hs
    cases r with
    | none =>
      obtain ⟨rfl, _, _⟩ := writeStart_none he
      exact ⟨q, .refl, hq.written, hq.taken, hq.front, hq.pending⟩
    | some r =>
      exact ⟨q, .refl, hq.written, hq.taken,
        hq.front.trans ((writeStart_same h.fifo he).unread s.mem).symm,
        hq.pending.trans (writeStart_filling h.fifo he s.mem).symm⟩
  | fill off bs =>
    obtain ⟨r, hr, hs⟩ := Option.bind_eq_some_iff.1 hs
    split at hs
    · next hb =>
      cases hs
      obtain ⟨hu, hf⟩ := store_same h.fifo (h.wr r hr) hb s.mem
      exact ⟨q, .refl, hq.written, hq.taken, hq.front.trans hu.symm, hq.pending.trans hf.symm⟩
    · cases hs
  | writeComplete amt =>
    obtain ⟨r, hr, hs⟩ := Option.bind_eq_some_iff.1 hs
    split at hs
    · next ha =>
      cases hs
      exact writeComplete_abs h hq hr ha
    · cases hs
  | readStart =>
    rcases he : s.fifo.readStart with ⟨f', r⟩
    simp only [step, he, Option.some.injEq] at hs
    subst hs
    cases r with
    | none =>
      obtain ⟨rfl, _, _⟩ := readStart_none he
      exact ⟨q, .refl, hq.written, hq.taken, hq.front, hq.pending⟩
    | some r =>
      exact ⟨q, .refl, hq.written, hq.taken,
        hq.front.trans (readStart_unread h.fifo he s.mem).symm,
        hq.pending.trans ((readStart_same h.fifo he).filling h.fifo s.mem).symm⟩
  | readComplete amt =>
    obtain ⟨r, hr, hs⟩ := Option.bind_eq_some_iff.1 hs
    split at hs
    · next ha =>
      cases hs
      exact readComplete_abs h hq hr ha
    · cases hs

/-- A run of the two clients is a run of the queue. -/
theorem run_refines {b c : Nat} (hb : 0 < b) (hc : 0 < c)
    (hr : Sys.run step (init b c) acts = some s) :
    Inv s ∧ ∃ q, Queue.Steps (.empty UInt8) q ∧ Abs s q := by
  refine Sys.run_invariant (I := fun s => Inv s ∧ ∃ q, Queue.Steps (.empty UInt8) q ∧ Abs s q)
    ?_ ⟨init_inv hb hc, _, .refl, init_abs b c⟩ hr
  intro s a t ⟨hi, q, hq, ha⟩ hs
  obtain ⟨q', hq', ha'⟩ := step_simulates hi ha hs
  exact ⟨step_inv hi hs, q', hq.trans hq', ha'⟩

/-- The ring behaves as a bounded queue of bytes: nothing is lost, repeated or reordered, the
consumer sees the next unread bytes, and the producer stays out of what it looks at. -/
theorem refines_byte_queue {b c : Nat} (hb : 1 ≤ b) (hc : 2 ≤ c)
    (hr : Sys.run step (init b c) acts = some s) :
    s.consumed ++ s.fifo.unread s.mem ++ s.fifo.filling s.mem = s.written ∧
      (∀ r, s.rd = some r →
        s.mem.load r.ptr r.maxAmt = (s.written.drop s.consumed.length).take r.maxAmt) ∧
      (∀ off bs t w r, step s (.fill off bs) = some t → s.wr = some w → s.rd = some r →
        Apart (w.ptr + off) bs.length r.ptr r.maxAmt) ∧
      (s.fifo.unread s.mem).length ≤ (s.fifo.blkCount - 1) * s.fifo.blkSize := by
  obtain ⟨hi, q, _, hq⟩ := run_refines hb (Nat.lt_of_lt_of_le Nat.zero_lt_two hc) hr
  have hall : s.consumed ++ s.fifo.unread s.mem ++ s.fifo.filling s.mem = s.written := by
    rw [← hq.taken, ← hq.front, ← hq.pending, q.taken_append, hq.written]
  refine ⟨hall, ?_, ?_, hi.fifo.unread_length_le s.mem⟩
  · intro r hr
    obtain ⟨rest, he⟩ := (hi.rd r hr).prefix_unread hi.fifo s.mem
    rw [← hall, ← he, List.append_assoc, List.append_assoc, List.drop_left,
      List.take_left' (Mem.length_load ..)]
  · intro off bs t w r _ hw hr
    exact hi.apart hw hr off bs.length r.maxAmt

theorem refines_byte_queue_short :
    ∃ s, Sys.run step (init 2 2) [.writeStart, .fill 0 [7, 8], .writeComplete 1, .writeStart,
        .writeComplete 0, .readStart, .writeStart] = some s ∧
      s.consumed ++ s.fifo.unread s.mem ++ s.fifo.filling s.mem = s.written := by
  obtain ⟨s, hs⟩ : ∃ s, Sys.run step (init 2 2) [.writeStart, .fill 0 [7, 8], .writeComplete 1,
      .writeStart, .writeComplete 0, .readStart, .writeStart] = some s := ⟨_, rfl⟩
  exact ⟨s, hs, (refines_byte_queue (by decide) (by decide) hs).1⟩

end FifoClients
end Avs4000
