import Avs4000.BlockFifoRepresentation
import Avs4000.Lib.Loop

namespace Avs4000
open Memory
set_option autoImplicit true

/-- Where a thread stands in `Write`, with the amount written so far. Each point is followed by at
most one operation on the ring. -/
inductive WritePc
  | loop (written : Nat)
  | copy (written : Nat) (p : Region)
  | copied (written amt : Nat)
  | done (written : Nat)

/-- Where a thread stands in `Read`, with the bytes read so far. -/
inductive ReadPc
  | loop (out : List UInt8)
  | copy (out : List UInt8) (p : Region)
  | copied (out : List UInt8) (amt : Nat)
  | done (out : List UInt8)

namespace BlockFifo

/-- The amount of one turn: what is left to move, or the `max` that fits. -/
def turnAmt (left max : Nat) : Nat := if left > max then max else left

/-- The next step of `Write` for the bytes `buf`. -/
def writeStep (buf : List UInt8) (f : BlockFifo) (m : Mem UInt8) :
    WritePc → BlockFifo × Mem UInt8 × WritePc
  | .loop written =>
    if written < buf.length then
      match f.writeStart with
      | (f, some p) => (f, m, .copy written p)
      | (f, none) => (f, m, .done written)
    else (f, m, .done written)
  | .copy written p =>
    let amt := turnAmt (buf.length - written) p.maxAmt
    (f, m.store p.ptr ((buf.drop written).take amt), .copied written amt)
  | .copied written amt => (f.writeComplete amt, m, .loop (written + amt))
  | .done written => (f, m, .done written)

/-- The next step of `Read` for `len` bytes. -/
def readStep (len : Nat) (f : BlockFifo) (m : Mem UInt8) : ReadPc → BlockFifo × ReadPc
  | .loop out =>
    if out.length < len then
      match f.readStart with
      | (f, some p) => (f, .copy out p)
      | (f, none) => (f, .done out)
    else (f, .done out)
  | .copy out p =>
    let amt := turnAmt (len - out.length) p.maxAmt
    (f, .copied (out ++ m.load p.ptr amt) amt)
  | .copied out amt => (f.readComplete amt, .loop out)
  | .done out => (f, .done out)

/-- `Write` on its own. -/
def write (buf : List UInt8) (s : BlockFifo × Mem UInt8 × WritePc) :
    BlockFifo × Mem UInt8 × WritePc := s.1.writeStep buf s.2.1 s.2.2

/-- `Read` on its own. -/
def read (len : Nat) (m : Mem UInt8) (s : BlockFifo × ReadPc) : BlockFifo × ReadPc :=
  s.1.readStep len m s.2

/-- The length of the block being filled. -/
def filled (f : BlockFifo) : Nat := (f.outBlk.map fun o => (f.blk o).len).getD 0

/-- The amount the ring has room for. -/
def room (f : BlockFifo) : Nat := (f.blkCount - 1 - f.count) * f.blkSize - f.filled

theorem turnAmt_le (left max : Nat) : turnAmt left max ≤ left ∧ turnAmt left max ≤ max := by
  rw [turnAmt]
  split <;> omega

theorem turnAmt_eq (left max : Nat) : turnAmt left max = max ∨ turnAmt left max = left := by
  rw [turnAmt]
  split
  · exact .inl rfl
  · exact .inr rfl

theorem turnAmt_pos (hl : 0 < left) (hm : 0 < m) : 0 < turnAmt left m := by
  rw [turnAmt]
  split <;> assumption

theorem Writing.filled {f : BlockFifo} (hw : f.Writing r) : f.filled = (f.blk f.head).len := by
  rw [BlockFifo.filled, hw.1]
  rfl

theorem room_full (h : Inv f) (hf : f.full) : f.room = 0 := by
  rw [h.full_iff] at hf
  rw [room, ← hf, Nat.add_sub_cancel, Nat.sub_self, Nat.zero_mul, Nat.zero_sub]

theorem filled_writeStart (h : Inv f) (hs : f.writeStart = (f', some r)) :
    f'.filled = f.filled := by
  obtain ⟨rfl, _⟩ | ⟨ho, _, rfl⟩ := writeStart_cases h hs
  · rfl
  · rw [(writeStart_writing h hs).filled, filled, ho]
    exact congrArg Block.len (setBlk_self ..)

theorem filled_close (h : Inv f) (hw : f.Writing r) : (f.writeComplete r.maxAmt).filled = 0 := by
  rw [writeComplete_close hw h (.inr rfl)]
  rfl

theorem filled_open (h : Inv f) (hw : f.Writing r) (hp : 0 < amt) (hlt : amt < r.maxAmt) :
    (f.writeComplete amt).filled = f.filled + amt := by
  rw [hw.filled, writeComplete_open hw h (Nat.pos_iff_ne_zero.1 hp) hlt, filled]
  change ((f.outBlk).map _).getD 0 = _
  rw [hw.1]
  exact congrArg Block.len (setBlk_self ..)

theorem room_writeStart (h : Inv f) (hs : f.writeStart = (f', some r)) : f'.room = f.room := by
  have hsame := writeStart_same h hs
  rw [room, hsame.blkCount, hsame.count, hsame.blkSize, filled_writeStart h hs, room]

theorem room_writeComplete (h : Inv f) (hw : f.Writing r) (hp : 0 < amt) (ha : amt ≤ r.maxAmt) :
    (f.writeComplete amt).room + amt = f.room := by
  have hlen := hw.filled
  obtain ⟨_, hc, hl, _⟩ := h.out _ hw.1
  obtain ⟨k, hk⟩ : ∃ k, f.blkCount - 1 - f.count = k + 1 := ⟨f.blkCount - 2 - f.count, by omega⟩
  have hroom : f.room = k * f.blkSize + (f.blkSize - (f.blk f.head).len) := by
    rw [room, hk, Nat.succ_mul, hlen]
    omega
  obtain rfl | hne := Decidable.eq_or_ne amt r.maxAmt
  · have hcount : (f.writeComplete r.maxAmt).count = f.count + 1 := by
      rw [writeComplete_close hw h (.inr rfl)]
    obtain ⟨_, _, hsize, hblocks⟩ := writeComplete_tail f r.maxAmt
    have hk' : f.blkCount - 1 - (f.count + 1) = k := by omega
    rw [hroom, room, filled_close h hw, hcount, hsize, hblocks, hk', Nat.sub_zero, hw.2]
  · have hlt := Nat.lt_of_le_of_ne ha hne
    have hsame := writeComplete_sameRing h hw (Nat.pos_iff_ne_zero.1 hp) hlt
    have hmax : r.maxAmt = f.blkSize - (f.blk f.head).len := congrArg Region.maxAmt hw.2
    rw [hroom, room, hsame.blkCount, hsame.count, hsame.blkSize, filled_open h hw hp hlt, hlen, hk,
      Nat.succ_mul]
    omega

theorem write_turn (h : Inv f) (hs : f.writeStart = (f', some p)) {bs : List UInt8}
    (hp : 0 < bs.length) (hb : bs.length ≤ p.maxAmt) (m : Mem UInt8) :
    Inv (f'.writeComplete bs.length) ∧
      (f'.writeComplete bs.length).room + bs.length = f.room ∧
      (f'.writeComplete bs.length).unread (m.store p.ptr bs) ++
          (f'.writeComplete bs.length).filling (m.store p.ptr bs) =
        f.unread m ++ f.filling m ++ bs := by
  have h' := writeStart_inv h hs
  have hw := writeStart_writing h hs
  have hroom : 0 + bs.length ≤ p.maxAmt := by rwa [Nat.zero_add]
  have hstore := store_same h' hw hroom m
  rw [Addr.add_zero] at hstore
  refine ⟨writeComplete_inv h' hw hb, ?_, ?_⟩
  · rw [room_writeComplete h' hw hp hb, room_writeStart h hs]
  · rw [writeComplete_content h' hw hb, hstore.1, hstore.2, Mem.load_store,
      (writeStart_same h hs).unread, writeStart_filling h hs]

theorem write_stuck (hlt : written < buf.length) (hs : f.writeStart = (f', none)) :
    write buf (f, m, .loop written) = (f', m, .done written) := by
  rw [write, writeStep, if_pos hlt, hs]

theorem write_start (hlt : written < buf.length) (hs : f.writeStart = (f', some p)) :
    write buf (f, m, .loop written) = (f', m, .copy written p) := by
  rw [write, writeStep, if_pos hlt, hs]

theorem write_comes (hlt : written < buf.length) (hs : f.writeStart = (f', some p))
    (ha : turnAmt (buf.length - written) p.maxAmt = amt)
    (hc : Sys.Comes (write buf) (f'.writeComplete amt,
      m.store p.ptr ((buf.drop written).take amt), .loop (written + amt)) t) :
    Sys.Comes (write buf) (f, m, .loop written) t := by
  apply Sys.Comes.head
  rw [write_start hlt hs]
  apply Sys.Comes.head
  rw [write, writeStep, ha]
  apply Sys.Comes.head
  rw [write, writeStep]
  exact hc

/-- `Write` comes to its end, having appended what fits. -/
theorem write_loop (h : Inv f) (buf : List UInt8) (m : Mem UInt8)
    (hle : written ≤ buf.length) : ∃ f' m' k,
      Sys.Comes (write buf) (f, m, .loop written) (f', m', .done (written + k)) ∧ Inv f' ∧
        k = min (buf.length - written) f.room ∧
        f'.unread m' ++ f'.filling m' =
          f.unread m ++ f.filling m ++ (buf.drop written).take k := by
  induction hn : buf.length - written using Nat.strong_induction_on generalizing f m written with
  | _ n ih =>
    by_cases hlt : written < buf.length
    · rcases hs : f.writeStart with ⟨f₁, p⟩
      cases p with
      | none =>
        obtain ⟨rfl, ho, hfull⟩ := writeStart_none hs
        refine ⟨f₁, m, 0, ?_, h, ?_, ?_⟩
        · apply Sys.Comes.head
          rw [write_stuck hlt hs]
          exact .refl ..
        · rw [room_full h hfull, Nat.min_zero]
        · rw [List.take_zero, List.append_nil]
      | some p =>
        have hmax := (writeStart_writing h hs).maxAmt_pos (writeStart_inv h hs)
        obtain ⟨hl, hm⟩ := turnAmt_le (buf.length - written) p.maxAmt
        have hpos := turnAmt_pos (Nat.sub_pos_of_lt hlt) hmax
        generalize hamt : turnAmt (buf.length - written) p.maxAmt = amt at hl hm hpos
        have hlen : ((buf.drop written).take amt).length = amt := by
          rw [List.length_take, List.length_drop, Nat.min_eq_left hl]
        obtain ⟨h', hroom, hcont⟩ := write_turn h hs (hlen.symm ▸ hpos) (hlen.symm ▸ hm) m
        rw [hlen] at h' hroom hcont
        have hle' : written + amt ≤ buf.length := by omega
        obtain ⟨f₂, m₂, k, hc, hi, hk, he⟩ := ih (buf.length - (written + amt)) (by omega) h'
          (m.store p.ptr ((buf.drop written).take amt)) hle' rfl
        refine ⟨f₂, m₂, amt + k, ?_, hi, ?_, ?_⟩
        · rw [Nat.add_assoc] at hc
          exact write_comes hlt hs hamt hc
        · omega
        · rw [he, hcont, List.take_add, List.drop_drop, List.append_assoc]
    · refine ⟨f, m, 0, ?_, h, ?_, ?_⟩
      · apply Sys.Comes.head
        rw [write, writeStep, if_neg hlt]
        exact .refl ..
      · omega
      · rw [List.take_zero, List.append_nil]

theorem unread_empty (h : Inv f) (he : f.empty) (m : Mem UInt8) : f.unread m = [] := by
  rw [h.empty_iff] at he
  rw [unread, ring, he]
  rfl

theorem read_turn (h : Inv f) (hs : f.readStart = (f', some p)) (ha : amt ≤ p.maxAmt)
    (m : Mem UInt8) :
    Inv (f'.readComplete amt) ∧
      f.unread m = m.load p.ptr amt ++ (f'.readComplete amt).unread m ∧
      (f'.readComplete amt).filling m = f.filling m ∧
      (amt = p.maxAmt → (f'.readComplete amt).count + 1 = f.count) := by
  obtain ⟨hpos, hf, hr⟩ := readStart_cases h hs
  have h' := readStart_inv h hs
  refine ⟨readComplete_inv h' hr ha, ?_, ?_, fun he => ?_⟩
  · rw [← readStart_unread h hs m, readComplete_content h' hr ha m]
  · rw [(readComplete_same h' hr).filling h' m, (readStart_same h hs).filling h m]
  · have hcount : f'.count = f.count := by rw [hf]
    rw [readComplete_close hr h' he]
    change f'.count - 1 + 1 = f.count
    rw [hcount, Nat.sub_add_cancel hpos]

theorem read_stuck (hlt : out.length < len) (hs : f.readStart = (f', none)) :
    read len m (f, .loop out) = (f', .done out) := by
  rw [read, readStep, if_pos hlt, hs]

theorem read_start (hlt : out.length < len) (hs : f.readStart = (f', some p)) :
    read len m (f, .loop out) = (f', .copy out p) := by
  rw [read, readStep, if_pos hlt, hs]

theorem read_comes (hlt : out.length < len) (hs : f.readStart = (f', some p))
    (ha : turnAmt (len - out.length) p.maxAmt = amt)
    (hc : Sys.Comes (read len m) (f'.readComplete amt, .loop (out ++ m.load p.ptr amt)) t) :
    Sys.Comes (read len m) (f, .loop out) t := by
  apply Sys.Comes.head
  rw [read_start hlt hs]
  apply Sys.Comes.head
  rw [read, readStep, ha]
  apply Sys.Comes.head
  rw [read, readStep]
  exact hc

theorem read_finish (hge : ¬out.length < len) :
    Sys.Comes (read len m) (f, .loop out) (f, .done out) := by
  apply Sys.Comes.head
  rw [read, readStep, if_neg hge]
  exact .refl ..

/-- `Read` comes to its end, having taken what there is. Each turn but the last retires a block. -/
theorem read_loop (h : Inv f) (len : Nat) (m : Mem UInt8) (hle : out.length ≤ len) :
    ∃ f' bs, Sys.Comes (read len m) (f, .loop out) (f', .done (out ++ bs)) ∧ Inv f' ∧
      bs.length = min (len - out.length) (f.unread m).length ∧
      f.unread m = bs ++ f'.unread m ∧ f'.filling m = f.filling m := by
  induction hn : f.count using Nat.strong_induction_on generalizing f out with
  | _ n ih =>
    by_cases hlt : out.length < len
    · rcases hs : f.readStart with ⟨f₁, p⟩
      cases p with
      | none =>
        obtain ⟨rfl, _, hempty⟩ := readStart_none hs
        refine ⟨f₁, [], ?_, h, ?_, rfl, rfl⟩
        · apply Sys.Comes.head
          rw [read_stuck hlt hs, List.append_nil]
          exact .refl ..
        · rw [unread_empty h hempty, List.length_nil, Nat.min_zero]
      | some p =>
        obtain ⟨hl, hm⟩ := turnAmt_le (len - out.length) p.maxAmt
        have hturn := turnAmt_eq (len - out.length) p.maxAmt
        generalize hamt : turnAmt (len - out.length) p.maxAmt = amt at hl hm hturn
        obtain ⟨h', hu, hf, hclose⟩ := read_turn h hs hm m
        have hlen : (out ++ m.load p.ptr amt).length = out.length + amt := by
          rw [List.length_append, Mem.length_load]
        rcases hturn with hmax | hfull
        · have hcount := hclose hmax
          have hle' : (out ++ m.load p.ptr amt).length ≤ len := by omega
          obtain ⟨f₂, bs, hc, hi, hbs, hu₂, hf₂⟩ :=
            ih (f₁.readComplete amt).count (by omega) h' hle' rfl
          rw [List.append_assoc] at hc
          refine ⟨f₂, m.load p.ptr amt ++ bs, read_comes hlt hs hamt hc, hi, ?_, ?_, hf₂.trans hf⟩
          · rw [List.length_append, hbs, hlen, hu, List.length_append, Mem.length_load]
            omega
          · rw [hu, hu₂, List.append_assoc]
        · have hge : ¬(out ++ m.load p.ptr amt).length < len := by omega
          have hend := read_finish (m := m) (f := f₁.readComplete amt) hge
          refine ⟨f₁.readComplete amt, m.load p.ptr amt, read_comes hlt hs hamt hend, h', ?_, hu,
            hf⟩
          rw [hu, List.length_append, Mem.length_load]
          omega
    · have hge : len - out.length = 0 := by omega
      refine ⟨f, [], ?_, h, ?_, rfl, rfl⟩
      · rw [List.append_nil]
        exact read_finish hlt
      · rw [hge, Nat.zero_min, List.length_nil]

/-- In every state the ring can come to, `Write` and `Read` on their own end, and move exactly
what fits and what there is. -/
theorem write_read_exact {b c : Nat} (hb : 1 ≤ b) (hc : 2 ≤ c)
    (hr : Sys.run FifoUsers.step (FifoUsers.init b c) acts = some s) (m : Mem UInt8) :
    (∀ buf : List UInt8, 1 ≤ buf.length → ∃ f' m' k,
      Sys.Comes (write buf) (s.fifo, m, .loop 0) (f', m', .done k) ∧
        k = min buf.length
          ((s.fifo.blkCount - 1 - s.fifo.count) * s.fifo.blkSize - s.fifo.filled) ∧
        f'.unread m' ++ f'.filling m' = s.fifo.unread m ++ s.fifo.filling m ++ buf.take k) ∧
      ∀ len, 1 ≤ len → ∃ f' bs,
        Sys.Comes (read len m) (s.fifo, .loop []) (f', .done bs) ∧
          bs.length = min len (s.fifo.unread m).length ∧
          s.fifo.unread m = bs ++ f'.unread m ∧ f'.filling m = s.fifo.filling m := by
  have h : FifoUsers.Inv s := Sys.run_invariant (fun _ _ _ h hs => FifoUsers.step_inv h hs)
    (FifoUsers.init_inv hb (Nat.lt_of_lt_of_le Nat.zero_lt_two hc)) hr
  constructor
  · intro buf _
    obtain ⟨f', m', k, hcomes, _, hk, he⟩ := write_loop h.fifo buf m (Nat.zero_le _)
    rw [Nat.zero_add] at hcomes
    exact ⟨f', m', k, hcomes, hk, he⟩
  · intro len _
    have hle : ([] : List UInt8).length ≤ len := Nat.zero_le _
    obtain ⟨f', bs, hcomes, _, hbs, hu, hf⟩ := read_loop h.fifo len m hle
    exact ⟨f', bs, hcomes, hbs, hu, hf⟩

/-- A ring with an empty block and a block being filled. -/
theorem write_read_exact_early : ∃ s,
    Sys.run FifoUsers.step (FifoUsers.init 2 4) [.writeStart, .writeComplete 1, .writeStart,
        .writeComplete 0, .writeStart, .writeComplete 0, .writeStart, .writeComplete 1] = some s ∧
      ∀ m, ∃ f' m', Sys.Comes (write [7, 8, 9]) (s.fifo, m, .loop 0) (f', m', .done 1) := by
  obtain ⟨s, hs⟩ : ∃ s, Sys.run FifoUsers.step (FifoUsers.init 2 4) [.writeStart,
      .writeComplete 1, .writeStart, .writeComplete 0, .writeStart, .writeComplete 0, .writeStart,
      .writeComplete 1] = some s := ⟨_, rfl⟩
  refine ⟨s, hs, fun m => ?_⟩
  obtain ⟨f', m', k, hcomes, hk, _⟩ :=
    (write_read_exact (by decide) (by decide) hs m).1 [7, 8, 9] (by decide)
  cases hs
  obtain rfl : k = 1 := hk
  exact ⟨f', m', hcomes⟩

end BlockFifo
end Avs4000
