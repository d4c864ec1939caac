import Avs4000.BlockFifoRegions
import Avs4000.Lib.Simulation
import Avs4000.LockedFifo

namespace Avs4000
namespace LockedFifo
open Memory BlockFifo
set_option autoImplicit true

/-- What holds at each point of a side, with its block, what makes it wait and the region it holds.
A thread that sleeps unnotified has nothing to wake for. -/
def PcOk (blk : Option Nat) (blocked : Prop) (held : Option Region) : FifoPc → Prop
  | .idle => True
  | .holds => blk ≠ none
  | .wait _ => blk = none
  | .asleep notified => blk = none ∧ (notified = false → blocked)
  | .take => blk = none ∧ ¬blocked
  | .complete amt => ∃ r, held = some r ∧ amt ≤ r.maxAmt
  | .failed => False

/-- A region that is held is the one the ring would hand out again, or a `Reset` took it back. -/
structure Inv (s : LockedFifo) : Prop where
  fifo : s.clients.fifo.Inv
  two : 2 ≤ s.clients.fifo.blkCount
  wr : ∀ r, s.clients.wr = some r → s.clients.fifo.outBlk = none ∨ s.clients.fifo.Writing r
  rd : ∀ r, s.clients.rd = some r → s.clients.fifo.inBlk = none ∨ s.clients.fifo.Reading r
  writer : PcOk s.clients.fifo.outBlk s.clients.fifo.full s.clients.wr s.writer
  reader : PcOk s.clients.fifo.inBlk s.clients.fifo.empty s.clients.rd s.reader

/-- Neither side has failed or is about to, and neither sleeps with nothing to wake it. -/
structure Sound (s : LockedFifo) : Prop where
  writer : PcOk s.clients.fifo.outBlk s.clients.fifo.full s.clients.wr s.writer
  reader : PcOk s.clients.fifo.inBlk s.clients.fifo.empty s.clients.rd s.reader

/-- A `Reset` finds no thread between its look at the ring and the lock, and no writer asleep that
has not been notified. -/
def Apart (s : LockedFifo) : Prop :=
  s.writer ≠ .holds ∧ s.writer ≠ .asleep false ∧ s.reader ≠ .holds ∧ s.reader ≠ .take

theorem PcOk.keep (h : PcOk b p held pc) (hp : p' ↔ p) : PcOk b p' held pc := by
  cases pc with
  | idle => trivial
  | holds | wait | complete | failed => exact h
  | asleep => exact ⟨h.1, fun hn => hp.2 (h.2 hn)⟩
  | take => exact ⟨h.1, fun hb => h.2 (hp.1 hb)⟩

theorem PcOk.notify (h : PcOk b p held pc) (hp : ¬p') : PcOk b p' held pc.notify := by
  cases pc with
  | idle => trivial
  | holds | wait | complete | failed => exact h
  | asleep => exact ⟨h.1, nofun⟩
  | take => exact ⟨h.1, hp⟩

theorem PcOk.writeComplete {f : BlockFifo} (h : PcOk f.inBlk f.empty held pc) (hi : f.Inv)
    (hw : f.outBlk = none ∨ ∃ r, f.Writing r ∧ amt ≤ r.maxAmt) :
    PcOk (f.writeComplete amt).inBlk (f.writeComplete amt).empty held
      (if f.outBlk.isSome && (f.writeComplete amt).outBlk.isNone then pc.notify else pc) := by
  rw [(writeComplete_tail f amt).2.1]
  obtain hn | ⟨r, hw, hle⟩ := hw
  · rw [writeComplete_outBlk_none hn, hn]
    exact h
  · have hinv := writeComplete_inv hi hw hle
    by_cases hc : amt = 0 ∨ amt = r.maxAmt
    · have hne : ¬(f.writeComplete amt).empty := by
        rw [hinv.empty_iff, writeComplete_close hw hi hc]
        exact Nat.succ_ne_zero _
      have ho : (f.writeComplete amt).outBlk = none := by rw [writeComplete_close hw hi hc]
      rw [ho, hw.1]
      exact h.notify hne
    · rw [not_or] at hc
      have hlt := Nat.lt_of_le_of_ne hle hc.2
      have hsame := writeComplete_sameRing hi hw hc.1 hlt
      have ho : (f.writeComplete amt).outBlk = some f.head := by
        rw [writeComplete_open hw hi hc.1 hlt]
        exact hw.1
      rw [ho, Option.isNone_some, Bool.and_false]
      refine h.keep ?_
      rw [hinv.empty_iff, hi.empty_iff, hsame.count]

theorem PcOk.readComplete {f : BlockFifo} (h : PcOk f.outBlk f.full held pc) (hi : f.Inv)
    (hr : f.inBlk = none ∨ ∃ r, f.Reading r ∧ amt ≤ r.maxAmt) :
    PcOk (f.readComplete amt).outBlk (f.readComplete amt).full held
      (if f.inBlk.isSome && (f.readComplete amt).inBlk.isNone then pc.notify else pc) := by
  obtain hn | ⟨r, hr, hle⟩ := hr
  · rw [readComplete_inBlk_none hn, hn]
    exact h
  · have hinv := readComplete_inv hi hr hle
    have hsame : SameFill f (f.readComplete amt) := readComplete_same hi hr
    have hcount := (hi.inn _ hr.1).2
    rw [hsame.outBlk]
    by_cases hc : amt = r.maxAmt
    · have hnot : ¬(f.readComplete amt).full := by
        have hlt := hi.count_lt
        rw [hinv.full_iff, readComplete_close hr hi hc]
        change ¬f.count - 1 + 1 = f.blkCount
        omega
      have hin : (f.readComplete amt).inBlk = none := by rw [readComplete_close hr hi hc]
      rw [hin, hr.1]
      exact h.notify hnot
    · have hopen := readComplete_open hr (Nat.lt_of_le_of_ne hle hc)
      have hin : (f.readComplete amt).inBlk = some f.tail := by
        rw [hopen]
        exact hr.1
      rw [hin, Option.isNone_some, Bool.and_false]
      refine h.keep ?_
      rw [hinv.full_iff, hi.full_iff, hsame.blkCount, hopen]
      rfl

theorem Inv.writing (h : Inv s) (hc : s.writer = .complete amt) :
    s.clients.fifo.outBlk = none ∨ ∃ r, s.clients.fifo.Writing r ∧ amt ≤ r.maxAmt := by
  have hw := h.writer
  rw [hc] at hw
  obtain ⟨r, hr, hle⟩ := hw
  exact (h.wr r hr).imp_right fun hw => ⟨r, hw, hle⟩

theorem Inv.reading (h : Inv s) (hc : s.reader = .complete amt) :
    s.clients.fifo.inBlk = none ∨ ∃ r, s.clients.fifo.Reading r ∧ amt ≤ r.maxAmt := by
  have hr := h.reader
  rw [hc] at hr
  obtain ⟨r, hr, hle⟩ := hr
  exact (h.rd r hr).imp_right fun hr => ⟨r, hr, hle⟩

theorem writeComplete_asserts {f : BlockFifo} (hi : f.Inv)
    (hw : f.outBlk = none ∨ ∃ r, f.Writing r ∧ amt ≤ r.maxAmt) :
    (f.outBlk.any fun o => (f.blk o).size - (f.blk o).len < amt) = false := by
  obtain hn | ⟨_, ⟨ho, rfl⟩, hle⟩ := hw
  · rw [hn]
    rfl
  · rw [ho, Option.any_some, decide_eq_false_iff_not, hi.size]
    exact Nat.not_lt.2 hle

theorem readComplete_asserts {f : BlockFifo} (hi : f.Inv)
    (hr : f.inBlk = none ∨ ∃ r, f.Reading r ∧ amt ≤ r.maxAmt) :
    (f.inBlk.any fun i => f.count = 0 ∨ (f.blk i).len < (f.blk i).read + amt) = false := by
  obtain hn | ⟨_, ⟨hin, rfl⟩, hle⟩ := hr
  · rw [hn]
    rfl
  · have hcount := (hi.inn _ hin).2
    have hread := hi.read_le f.tail
    rw [hin, Option.any_some, decide_eq_false_iff_not]
    dsimp only at hle
    omega

theorem writeStart_holds {f : BlockFifo} (ho : f.outBlk = some o) :
    f.writeStart =
      (f, some ⟨(f.blk o).buf + (f.blk o).len, (f.blk o).size - (f.blk o).len⟩) := by
  rw [writeStart, ho]

theorem writeStart_full {f : BlockFifo} (ho : f.outBlk = none) (hf : f.full) :
    f.writeStart = (f, none) := by
  rw [writeStart, ho]
  exact if_pos hf

theorem writeStart_take {f f' : BlockFifo} (ho : f.outBlk = none) (hf : ¬f.full)
    (hf' : f' = { f.setBlk f.head (f.blk f.head).reset with outBlk := some f.head }) :
    f.writeStart = (f', some ⟨(f'.blk f'.head).buf, (f'.blk f'.head).size⟩) := by
  rw [writeStart, ho, hf']
  exact if_neg hf

theorem readStart_holds {f : BlockFifo} (hi : f.inBlk = some i) :
    f.readStart =
      (f, some ⟨(f.blk i).buf + (f.blk i).read, (f.blk i).len - (f.blk i).read⟩) := by
  rw [readStart, hi]

theorem readStart_empty {f : BlockFifo} (hi : f.inBlk = none) (he : f.empty) :
    f.readStart = (f, none) := by
  rw [readStart, hi]
  exact if_pos he

theorem readStart_take {f : BlockFifo} (hi : f.inBlk = none) (he : ¬f.empty) :
    f.readStart =
      ({ f with inBlk := some f.tail }, some ⟨(f.blk f.tail).buf, (f.blk f.tail).len⟩) := by
  rw [readStart, hi]
  exact if_neg he

/-- The calls of one side, as they are made and as they take effect. -/
def Act.isWrite : Act → Bool
  | .writeStart _ | .writeComplete _ => true
  | _ => false

def Act.isRead : Act → Bool
  | .readStart _ | .readComplete _ => true
  | _ => false

def isWrite : FifoClients.Act → Bool
  | .writeStart | .writeComplete _ => true
  | _ => false

def isRead : FifoClients.Act → Bool
  | .readStart | .readComplete _ => true
  | _ => false

/-- The calls under way on one side. -/
def busy : FifoPc → Nat
  | .idle => 0
  | _ => 1

theorem busy_notify (p : Bool) (pc : FifoPc) : busy (if p then pc.notify else pc) = busy pc := by
  cases p with
  | false => rfl
  | true => cases pc <;> rfl

theorem no_region {P : Region → Prop} : ∀ r, (none : Option Region) = some r → P r := by
  intro r hr
  cases hr

/-- A step keeps the invariant, the clients see its effect, and a call that is made has not taken
effect before it returns. -/
structure Moves (s : LockedFifo) (a : Act) (t : LockedFifo) : Prop where
  inv : Inv t
  effect : Sys.run FifoClients.step s.clients (effect s a).toList = some t.clients
  writes : (LockedFifo.effect s a).toList.countP isWrite + busy t.writer =
    (if a.isWrite then 1 else 0) + busy s.writer
  reads : (LockedFifo.effect s a).toList.countP isRead + busy t.reader =
    (if a.isRead then 1 else 0) + busy s.reader

theorem Moves.quiet (he : LockedFifo.effect s a = none) (hi : Inv t) (hc : t.clients = s.clients)
    (hw : busy t.writer = (if a.isWrite then 1 else 0) + busy s.writer)
    (hr : busy t.reader = (if a.isRead then 1 else 0) + busy s.reader) : Moves s a t := by
  refine ⟨hi, ?_, ?_, ?_⟩
  · rw [he, hc]
    rfl
  · rw [he, ← hw]
    exact Nat.zero_add _
  · rw [he, ← hr]
    exact Nat.zero_add _

theorem Moves.writes_one (he : LockedFifo.effect s a = some b) (hb : isWrite b = true)
    (hi : Inv t) (hc : s.clients.step b = some t.clients) (ha : a.isWrite = false)
    (ha' : a.isRead = false) (hw : busy s.writer = 1) (hw' : t.writer = .idle)
    (hr : busy t.reader = busy s.reader) : Moves s a t := by
  refine ⟨hi, ?_, ?_, ?_⟩
  · rw [he]
    exact Sys.run_cons_eq_some.2 ⟨_, hc, rfl⟩
  · rw [he, ha, hw, hw', Option.toList_some, List.countP_singleton, hb]
    rfl
  · have hn : isRead b = false := by
      cases b with
      | writeStart | writeComplete => rfl
      | fill | readStart | readComplete => cases hb
    rw [he, ha', hr, Option.toList_some, List.countP_singleton, hn]

theorem Moves.reads_one (he : LockedFifo.effect s a = some b) (hb : isRead b = true)
    (hi : Inv t) (hc : s.clients.step b = some t.clients) (ha : a.isWrite = false)
    (ha' : a.isRead = false) (hr : busy s.reader = 1) (hr' : t.reader = .idle)
    (hw : busy t.writer = busy s.writer) : Moves s a t := by
  refine ⟨hi, ?_, ?_, ?_⟩
  · rw [he]
    exact Sys.run_cons_eq_some.2 ⟨_, hc, rfl⟩
  · have hn : isWrite b = false := by
      cases b with
      | readStart | readComplete => rfl
      | fill | writeStart | writeComplete => cases hb
    rw [he, ha, hw, Option.toList_some, List.countP_singleton, hn]
  · rw [he, ha', hr, hr', Option.toList_some, List.countP_singleton, hb]
    rfl

theorem writerStep_moves (h : Inv s) (hs : s.writerStep = some t) : Moves s .writerStep t := by
  have hw := h.writer
  cases hc : s.writer with
  | idle | asleep | failed =>
    simp only [writerStep, hc] at hs
    cases hs
  | holds =>
    rw [hc] at hw
    obtain ⟨o, ho⟩ := Option.ne_none_iff_exists'.1 hw
    have hstart := writeStart_holds ho
    simp only [writerStep, hc, ho, Option.some.injEq] at hs
    subst hs
    refine .writes_one (b := .writeStart) (by simp only [LockedFifo.effect, hc]) rfl
      ⟨h.fifo, h.two, ?_, h.rd, trivial, h.reader⟩ (by simp only [FifoClients.step, hstart]) rfl rfl
      (congrArg busy hc) rfl rfl
    intro r hr
    cases hr
    exact .inr (writeStart_writing h.fifo hstart)
  | wait msTimeout =>
    rw [hc] at hw
    by_cases hf : s.clients.fifo.full
    · cases msTimeout with
      | zero =>
        have hstart := writeStart_full hw hf
        simp only [writerStep, hc, hf, decide_true, Bool.not_true, Bool.false_eq_true, if_false,
          gt_iff_lt, Nat.lt_irrefl, Option.some.injEq] at hs
        subst hs
        refine .writes_one (b := .writeStart) (by simp only [LockedFifo.effect, hc, hf, if_true])
          rfl ⟨h.fifo, h.two, no_region, h.rd, trivial, h.reader⟩ ?_ rfl rfl (congrArg busy hc) rfl
          rfl
        simp only [FifoClients.step, hstart, writeNull]
      | succ n =>
        simp only [writerStep, hc, hf, decide_true, Bool.not_true, Bool.false_eq_true, if_false,
          gt_iff_lt, Nat.succ_pos, if_true, Option.some.injEq] at hs
        subst hs
        exact .quiet (by simp only [LockedFifo.effect, hc])
          ⟨h.fifo, h.two, h.wr, h.rd, ⟨hw, fun _ => hf⟩, h.reader⟩ rfl (by rw [hc]; rfl)
          (Nat.zero_add _).symm
    · simp only [writerStep, hc, hf, decide_false, Bool.not_false, if_true, Option.some.injEq] at hs
      subst hs
      refine .quiet ?_ ⟨h.fifo, h.two, h.wr, h.rd, ⟨hw, hf⟩, h.reader⟩ rfl (by rw [hc]; rfl)
        (Nat.zero_add _).symm
      cases msTimeout with
      | zero => simp only [LockedFifo.effect, hc, hf, if_false]
      | succ n => simp only [LockedFifo.effect, hc]
  | take =>
    rw [hc] at hw
    obtain ⟨ho, hf⟩ := hw
    have hstart := writeStart_take ho hf rfl
    have hsame := writeStart_same h.fifo hstart
    have hinv := writeStart_inv h.fifo hstart
    simp only [writerStep, hc, Option.some.injEq] at hs
    subst hs
    refine .writes_one (b := .writeStart) (by simp only [LockedFifo.effect, hc]) rfl
      ⟨hinv, h.two, ?_, ?_, trivial, h.reader⟩ (by simp only [FifoClients.step, hstart]) rfl rfl
      (congrArg busy hc) rfl rfl
    · intro r hr
      cases hr
      exact .inr (writeStart_writing h.fifo hstart)
    · intro r hr
      exact (h.rd r hr).imp_right fun hr => hsame.reading h.fifo hr
  | complete amt =>
    have hregion := h.writing hc
    have hassert := writeComplete_asserts h.fifo hregion
    have hreader := h.reader.writeComplete h.fifo hregion
    have hkeep : KeepsReading s.clients.fifo (s.clients.fifo.writeComplete amt) := by
      obtain hn | ⟨r, hw, hle⟩ := hregion
      · rw [writeComplete_outBlk_none hn]
        exact .refl h.fifo
      · exact keepsReading_writeComplete h.fifo hw hle
    rw [hc] at hw
    obtain ⟨r, hr, hle⟩ := hw
    simp only [writerStep, hc, hassert, Bool.false_eq_true, if_false, Option.some.injEq] at hs
    subst hs
    refine .writes_one (b := .writeComplete amt) (by simp only [LockedFifo.effect, hc]) rfl
      ⟨hkeep.inv, ?_, no_region, ?_, trivial, hreader⟩ ?_ rfl rfl (congrArg busy hc) rfl
      (busy_notify ..)
    · exact (writeComplete_tail s.clients.fifo amt).2.2.2.symm ▸ h.two
    · intro r hr
      exact (h.rd r hr).imp (hkeep.inBlk.trans ·) (hkeep.reading r)
    · simp only [FifoClients.step, hr, Option.bind_some, if_pos hle, Option.map_some,
        Option.getD_some]

theorem readerStep_moves (h : Inv s) (hs : s.readerStep = some t) : Moves s .readerStep t := by
  have hr := h.reader
  cases hc : s.reader with
  | idle | asleep | failed =>
    simp only [readerStep, hc] at hs
    cases hs
  | holds =>
    rw [hc] at hr
    obtain ⟨i, hi⟩ := Option.ne_none_iff_exists'.1 hr
    have hcount := Nat.pos_iff_ne_zero.1 (h.fifo.inn i hi).2
    have hstart := readStart_holds hi
    simp only [readerStep, hc, hi, if_neg hcount, Option.some.injEq] at hs
    subst hs
    refine .reads_one (b := .readStart) (by simp only [LockedFifo.effect, hc]) rfl
      ⟨h.fifo, h.two, h.wr, ?_, h.writer, trivial⟩ (by simp only [FifoClients.step, hstart]) rfl rfl
      (congrArg busy hc) rfl rfl
    intro r hr
    cases hr
    exact .inr (readStart_cases h.fifo hstart).2.2
  | wait msTimeout =>
    rw [hc] at hr
    by_cases he : s.clients.fifo.empty
    · cases msTimeout with
      | zero =>
        have hstart := readStart_empty hr he
        simp only [readerStep, hc, he, decide_true, Bool.not_true, Bool.false_eq_true, if_false,
          gt_iff_lt, Nat.lt_irrefl, Option.some.injEq] at hs
        subst hs
        refine .reads_one (b := .readStart) (by simp only [LockedFifo.effect, hc, he, if_true]) rfl
          ⟨h.fifo, h.two, h.wr, no_region, h.writer, trivial⟩ ?_ rfl rfl (congrArg busy hc) rfl rfl
        simp only [FifoClients.step, hstart, readNull]
      | succ n =>
        simp only [readerStep, hc, he, decide_true, Bool.not_true, Bool.false_eq_true, if_false,
          gt_iff_lt, Nat.succ_pos, if_true, Option.some.injEq] at hs
        subst hs
        exact .quiet (by simp only [LockedFifo.effect, hc])
          ⟨h.fifo, h.two, h.wr, h.rd, h.writer, ⟨hr, fun _ => he⟩⟩ rfl (Nat.zero_add _).symm
          (by rw [hc]; rfl)
    · simp only [readerStep, hc, he, decide_false, Bool.not_false, if_true, Option.some.injEq] at hs
      subst hs
      refine .quiet ?_ ⟨h.fifo, h.two, h.wr, h.rd, h.writer, ⟨hr, he⟩⟩ rfl (Nat.zero_add _).symm
        (by rw [hc]; rfl)
      cases msTimeout with
      | zero => simp only [LockedFifo.effect, hc, he, if_false]
      | succ n => simp only [LockedFifo.effect, hc]
  | take =>
    rw [hc] at hr
    obtain ⟨hi, he⟩ := hr
    have hcount := he
    rw [h.fifo.empty_iff] at hcount
    have hstart := readStart_take hi he
    have hsame := readStart_same h.fifo hstart
    have hinv := readStart_inv h.fifo hstart
    simp only [readerStep, hc, if_neg hcount, Option.some.injEq] at hs
    subst hs
    refine .reads_one (b := .readStart) (by simp only [LockedFifo.effect, hc]) rfl
      ⟨hinv, h.two, ?_, ?_, h.writer, trivial⟩ (by simp only [FifoClients.step, hstart]) rfl rfl
      (congrArg busy hc) rfl rfl
    · intro r hr
      exact (h.wr r hr).imp_right fun hr => hsame.writing hr
    · intro r hr
      cases hr
      exact .inr (readStart_cases h.fifo hstart).2.2
  | complete amt =>
    have hregion := h.reading hc
    have hassert := readComplete_asserts h.fifo hregion
    have hwriter := h.writer.readComplete h.fifo hregion
    have hkeep : KeepsWriting s.clients.fifo (s.clients.fifo.readComplete amt) ∧
        (s.clients.fifo.readComplete amt).blkCount = s.clients.fifo.blkCount := by
      obtain hn | ⟨r, hr, hle⟩ := hregion
      · rw [readComplete_inBlk_none hn]
        exact ⟨.refl h.fifo, rfl⟩
      · have hsame : SameFill s.clients.fifo (s.clients.fifo.readComplete amt) :=
          readComplete_same h.fifo hr
        exact ⟨keepsWriting_readComplete h.fifo hr hle, hsame.blkCount⟩
    obtain ⟨hkeep, hblk⟩ := hkeep
    rw [hc] at hr
    obtain ⟨r, hr, hle⟩ := hr
    simp only [readerStep, hc, hassert, Bool.false_eq_true, if_false, Option.some.injEq] at hs
    subst hs
    refine .reads_one (b := .readComplete amt) (by simp only [LockedFifo.effect, hc]) rfl
      ⟨hkeep.inv, hblk.symm ▸ h.two, ?_, no_region, hwriter, trivial⟩ ?_ rfl rfl (congrArg busy hc)
      rfl (busy_notify ..)
    · intro r hr
      exact (h.wr r hr).imp (hkeep.outBlk.trans ·) (hkeep.writing r)
    · simp only [FifoClients.step, hr, Option.bind_some, if_pos hle, Option.map_some,
        Option.getD_some]

theorem writerWake_moves (h : Inv s) (hs : s.writerWake timedOut = some t) :
    Moves s (.writerWake timedOut) t := by
  have hw := h.writer
  cases hc : s.writer with
  | asleep notified =>
    rw [hc] at hw
    by_cases hf : s.clients.fifo.full
    · cases timedOut with
      | true =>
        have hstart := writeStart_full hw.1 hf
        simp only [writerWake, hc, hf, decide_true, Bool.not_true, Bool.false_eq_true, if_false,
          if_true, Option.some.injEq] at hs
        subst hs
        refine .writes_one (b := .writeStart)
          (by simp only [LockedFifo.effect, hf, and_self, if_true]) rfl
          ⟨h.fifo, h.two, no_region, h.rd, trivial, h.reader⟩ ?_ rfl rfl (congrArg busy hc) rfl rfl
        simp only [FifoClients.step, hstart, writeNull]
      | false =>
        simp only [writerWake, hc, hf, decide_true, Bool.not_true, Bool.false_eq_true, if_false,
          Option.some.injEq] at hs
        subst hs
        exact .quiet (by simp only [LockedFifo.effect, Bool.false_eq_true, false_and, if_false])
          ⟨h.fifo, h.two, h.wr, h.rd, ⟨hw.1, fun _ => hf⟩, h.reader⟩ rfl (by rw [hc]; rfl)
          (Nat.zero_add _).symm
    · simp only [writerWake, hc, hf, decide_false, Bool.not_false, if_true, Option.some.injEq] at hs
      subst hs
      exact .quiet (by simp only [LockedFifo.effect, hf, and_false, if_false])
        ⟨h.fifo, h.two, h.wr, h.rd, ⟨hw.1, hf⟩, h.reader⟩ rfl (by rw [hc]; rfl)
        (Nat.zero_add _).symm
  | idle | holds | wait | take | complete | failed =>
    simp only [writerWake, hc] at hs
    cases hs

theorem readerWake_moves (h : Inv s) (hs : s.readerWake timedOut = some t) :
    Moves s (.readerWake timedOut) t := by
  have hr := h.reader
  cases hc : s.reader with
  | asleep notified =>
    rw [hc] at hr
    by_cases he : s.clients.fifo.empty
    · cases timedOut with
      | true =>
        have hstart := readStart_empty hr.1 he
        simp only [readerWake, hc, he, decide_true, Bool.not_true, Bool.false_eq_true, if_false,
          if_true, Option.some.injEq] at hs
        subst hs
        refine .reads_one (b := .readStart)
          (by simp only [LockedFifo.effect, he, and_self, if_true]) rfl
          ⟨h.fifo, h.two, h.wr, no_region, h.writer, trivial⟩ ?_ rfl rfl (congrArg busy hc) rfl rfl
        simp only [FifoClients.step, hstart, readNull]
      | false =>
        simp only [readerWake, hc, he, decide_true, Bool.not_true, Bool.false_eq_true, if_false,
          Option.some.injEq] at hs
        subst hs
        exact .quiet (by simp only [LockedFifo.effect, Bool.false_eq_true, false_and, if_false])
          ⟨h.fifo, h.two, h.wr, h.rd, h.writer, ⟨hr.1, fun _ => he⟩⟩ rfl (Nat.zero_add _).symm
          (by rw [hc]; rfl)
    · simp only [readerWake, hc, he, decide_false, Bool.not_false, if_true, Option.some.injEq] at hs
      subst hs
      exact .quiet (by simp only [LockedFifo.effect, he, and_false, if_false])
        ⟨h.fifo, h.two, h.wr, h.rd, h.writer, ⟨hr.1, he⟩⟩ rfl (Nat.zero_add _).symm
        (by rw [hc]; rfl)
  | idle | holds | wait | take | complete | failed =>
    simp only [readerWake, hc] at hs
    cases hs

theorem reset_full {f : BlockFifo} (h : 2 ≤ f.blkCount) : ¬f.reset.full := by
  intro hf
  have hone : 1 % f.blkCount = 0 := hf
  rw [Nat.mod_eq_of_lt h] at hone
  cases hone

/-- A `Reset` outside the calls takes both blocks away. -/
theorem reset_keeps (h : Inv s) (ha : s.Apart) (hs : step s .reset = some t) : Inv t := by
  have hw := h.writer
  have hr := h.reader
  obtain ⟨hwh, hwa, hrh, hrt⟩ := ha
  simp only [step, Option.some.injEq] at hs
  subst hs
  refine ⟨reset_inv h.fifo, h.two, fun r _ => .inl rfl, fun r _ => .inl rfl, ?_, ?_⟩
  · cases hc : s.writer with
    | idle => trivial
    | holds => exact absurd hc hwh
    | wait => exact rfl
    | asleep b =>
      cases b with
      | false => exact absurd hc hwa
      | true => exact ⟨rfl, nofun⟩
    | take => exact ⟨rfl, reset_full h.two⟩
    | complete | failed =>
      rw [hc] at hw
      exact hw
  · cases hc : s.reader with
    | idle => trivial
    | holds => exact absurd hc hrh
    | wait => exact rfl
    | asleep b => exact ⟨rfl, fun _ => rfl⟩
    | take => exact absurd hc hrt
    | complete | failed =>
      rw [hc] at hr
      exact hr

theorem looks (b : Option Nat) (p : Prop) (held : Option Region) (msTimeout : Nat) :
    PcOk b p held (if b.isSome then .holds else .wait msTimeout) ∧
      busy (if b.isSome then .holds else .wait msTimeout) = 1 := by
  cases b with
  | none => exact ⟨rfl, rfl⟩
  | some i => exact ⟨Option.some_ne_none i, rfl⟩

theorem step_moves (h : Inv s) (ha : a ≠ .reset) (hs : step s a = some t) : Moves s a t := by
  cases a with
  | reset => exact absurd rfl ha
  | writerStep => exact writerStep_moves h hs
  | writerWake timedOut => exact writerWake_moves h hs
  | readerStep => exact readerStep_moves h hs
  | readerWake timedOut => exact readerWake_moves h hs
  | writeStart msTimeout =>
    simp only [step] at hs
    split at hs
    · next hidle =>
      cases hs
      obtain ⟨hok, hbusy⟩ := looks s.clients.fifo.outBlk s.clients.fifo.full s.clients.wr msTimeout
      exact .quiet rfl ⟨h.fifo, h.two, h.wr, h.rd, hok, h.reader⟩ rfl (by rw [hidle]; exact hbusy)
        (Nat.zero_add _).symm
    · cases hs
  | readStart msTimeout =>
    simp only [step] at hs
    split at hs
    · next hidle =>
      cases hs
      obtain ⟨hok, hbusy⟩ := looks s.clients.fifo.inBlk s.clients.fifo.empty s.clients.rd msTimeout
      exact .quiet rfl ⟨h.fifo, h.two, h.wr, h.rd, h.writer, hok⟩ rfl (Nat.zero_add _).symm
        (by rw [hidle]; exact hbusy)
    · cases hs
  | fill off bs =>
    simp only [step] at hs
    split at hs
    · obtain ⟨c, hc, rfl⟩ := Option.map_eq_some_iff.1 hs
      refine ⟨?_, Sys.run_cons_eq_some.2 ⟨c, hc, rfl⟩, rfl, rfl⟩
      obtain ⟨r, hr, hc⟩ := Option.bind_eq_some_iff.1 hc
      split at hc
      · cases hc
        exact ⟨h.fifo, h.two, h.wr, h.rd, h.writer, h.reader⟩
      · cases hc
    · cases hs
  | writeComplete amt =>
    simp only [step] at hs
    split at hs
    · next hidle =>
      obtain ⟨r, hr, hs⟩ := Option.bind_eq_some_iff.1 hs
      split at hs
      · next hle =>
        cases hs
        exact .quiet rfl ⟨h.fifo, h.two, h.wr, h.rd, ⟨r, hr, hle⟩, h.reader⟩ rfl
          (by rw [hidle]; rfl) (Nat.zero_add _).symm
      · cases hs
    · cases hs
  | readComplete amt =>
    simp only [step] at hs
    split at hs
    · next hidle =>
      obtain ⟨r, hr, hs⟩ := Option.bind_eq_some_iff.1 hs
      split at hs
      · next hle =>
        cases hs
        exact .quiet rfl ⟨h.fifo, h.two, h.wr, h.rd, h.writer, ⟨r, hr, hle⟩⟩ rfl
          (Nat.zero_add _).symm (by rw [hidle]; rfl)
      · cases hs
    · cases hs

theorem init_inv {b c : Nat} (hb : 1 ≤ b) (hc : 2 ≤ c) : Inv (init b c) where
  fifo := new_inv hb (Nat.lt_of_lt_of_le Nat.zero_lt_two hc)
  two := hc
  wr := nofun
  rd := nofun
  writer := trivial
  reader := trivial

/-- Without a `Reset`, a run at the grain of the locks is a run of the two clients: each call takes
effect once, in one of its own steps, and no null pointer is followed and no assertion fails. -/
theorem locks_linearize {b c : Nat} (hb : 1 ≤ b) (hc : 2 ≤ c) (hn : ∀ a ∈ acts, a ≠ .reset)
    (hr : Sys.run step (init b c) acts = some s) :
    Sys.run FifoClients.step (.init b c) (Sys.effects step effect (init b c) acts) =
        some s.clients ∧
      (Sys.effects step effect (init b c) acts).countP isWrite + busy s.writer =
        acts.countP Act.isWrite ∧
      (Sys.effects step effect (init b c) acts).countP isRead + busy s.reader =
        acts.countP Act.isRead ∧
      s.clients.consumed ++ s.clients.fifo.unread s.clients.mem ++
        s.clients.fifo.filling s.clients.mem = s.clients.written ∧
      s.writer ≠ .failed ∧ s.reader ≠ .failed := by
  have hinit := init_inv hb hc
  have hstep : ∀ s a t, Inv s → a ≠ .reset → step s a = some t →
      Inv t ∧ Sys.run FifoClients.step s.clients (effect s a).toList = some t.clients := by
    intro s a t h ha hs
    have hmoves := step_moves h ha hs
    exact ⟨hmoves.inv, hmoves.effect⟩
  obtain ⟨hinv, hrun⟩ := Sys.run_effects hstep hinit hn hr
  have hwrites := Sys.effects_count (m := fun s => busy s.writer)
    (fun s a t h ha hs => ⟨(step_moves h ha hs).inv, (step_moves h ha hs).writes⟩) hinit hn hr
  have hreads := Sys.effects_count (m := fun s => busy s.reader)
    (fun s a t h ha hs => ⟨(step_moves h ha hs).inv, (step_moves h ha hs).reads⟩) hinit hn hr
  obtain ⟨_, q, _, hq⟩ := FifoClients.run_refines hb (Nat.lt_of_lt_of_le Nat.zero_lt_two hc) hrun
  refine ⟨hrun, hwrites, hreads, ?_, ?_, ?_⟩
  · rw [← hq.taken, ← hq.front, ← hq.pending, q.taken_append, hq.written]
  · intro he
    have hw := hinv.writer
    rw [he] at hw
    exact hw
  · intro he
    have hr := hinv.reader
    rw [he] at hr
    exact hr

/-- The writer commits a block while the reader sleeps, and its notification wakes it. -/
theorem locks_linearize_notified : ∃ s,
    Sys.run step (init 2 2) [.writeStart 5, .readStart 5, .writerStep, .readerStep, .writerStep,
      .fill 0 [7, 8], .writeComplete 2, .writerStep, .readerWake false, .readerStep] = some s ∧
      Sys.run FifoClients.step (.init 2 2) [.writeStart, .fill 0 [7, 8], .writeComplete 2,
        .readStart] = some s.clients ∧ s.clients.written = [7, 8] := by
  obtain ⟨s, hs, he, hw⟩ : ∃ s,
      Sys.run step (init 2 2) [.writeStart 5, .readStart 5, .writerStep, .readerStep, .writerStep,
        .fill 0 [7, 8], .writeComplete 2, .writerStep, .readerWake false, .readerStep] = some s ∧
      Sys.effects step effect (init 2 2) [.writeStart 5, .readStart 5, .writerStep, .readerStep,
        .writerStep, .fill 0 [7, 8], .writeComplete 2, .writerStep, .readerWake false,
        .readerStep] = [.writeStart, .fill 0 [7, 8], .writeComplete 2, .readStart] ∧
      s.clients.written = [7, 8] := ⟨_, rfl, rfl, rfl⟩
  have hn : ∀ a ∈ [Act.writeStart 5, .readStart 5, .writerStep, .readerStep, .writerStep,
      .fill 0 [7, 8], .writeComplete 2, .writerStep, .readerWake false, .readerStep],
      a ≠ .reset := by
    simp only [List.mem_cons, List.not_mem_nil, or_false, forall_eq_or_imp, forall_eq, ne_eq,
      reduceCtorEq, not_false_eq_true, and_self]
  exact ⟨s, hs, he ▸ (locks_linearize (by decide) (by decide) hn hs).1, hw⟩

/-- A `Reset` that is not apart leaves a side that is about to fail, or a writer asleep in front of
an empty ring. -/
theorem reset_breaks (h : Inv s) (ha : ¬s.Apart) (hs : step s .reset = some t) : ¬Sound t := by
  simp only [step, Option.some.injEq] at hs
  subst hs
  intro hsound
  apply ha
  refine ⟨fun hc => ?_, fun hc => ?_, fun hc => ?_, fun hc => ?_⟩
  · have hw := hsound.writer
    dsimp only at hw
    rw [hc] at hw
    exact hw rfl
  · have hw := hsound.writer
    dsimp only at hw
    rw [hc] at hw
    exact reset_full h.two (hw.2 rfl)
  · have hr := hsound.reader
    dsimp only at hr
    rw [hc] at hr
    exact hr rfl
  · have hr := hsound.reader
    dsimp only at hr
    rw [hc] at hr
    exact hr.2 rfl

/-- A run stays sound exactly if each `Reset` in it is apart. -/
theorem reset_iff {b c : Nat} (hb : 1 ≤ b) (hc : 2 ≤ c)
    (hr : Sys.run step (init b c) acts = some s) :
    (∀ pre post u, acts = pre ++ post → Sys.run step (init b c) pre = some u → Sound u) ↔
      Sys.Along step (fun s a => a = .reset → s.Apart) (init b c) acts := by
  refine Sys.forall_reached_iff_along (I := Inv) (H := fun _ _ => True)
    (fun s h => ⟨h.writer, h.reader⟩) ?_ (init_inv hb hc) (Sys.along_true ..) hr
  intro s a t h _ hs
  by_cases ha : a = .reset
  · subst ha
    refine ⟨fun hapart => reset_keeps h (hapart rfl) hs, fun hn => ?_⟩
    exact reset_breaks h (fun hapart => hn fun _ => hapart) hs
  · exact ⟨fun _ => (step_moves h ha hs).inv, fun hn => absurd (fun he => absurd he ha) hn⟩

/-- The writer has seen that it holds a block, and not yet locked. -/
def window : List Act := [.writeStart 0, .writerStep, .writerStep, .writeStart 0]

theorem reset_iff_window : ∃ s, Sys.run step (init 2 2) (window ++ [.reset]) = some s ∧
    ¬∀ pre post u, window ++ [.reset] = pre ++ post →
      Sys.run step (init 2 2) pre = some u → Sound u := by
  obtain ⟨s, hs⟩ : ∃ s, Sys.run step (init 2 2) (window ++ [.reset]) = some s := ⟨_, rfl⟩
  obtain ⟨u, hu, hc⟩ : ∃ u, Sys.run step (init 2 2) window = some u ∧ u.writer = .holds :=
    ⟨_, rfl, rfl⟩
  refine ⟨s, hs, fun hall => ?_⟩
  have halong := (reset_iff (by decide) (by decide) hs).1 hall
  have hlast := halong.append.2 u hu
  exact (hlast.1 rfl).1 hc

end LockedFifo
end Avs4000
