import Avs4000.BlockFifoBulk
import Avs4000.RxBlocks
import Avs4000.TxAccounting

namespace Avs4000
open Memory
open BlockFifo hiding count
set_option autoImplicit true

/-- Where `Test` stands in a turn of its loop. -/
inductive TestPc
  | loop
  | write (pc : WritePc)
  | read (rdLen : Nat) (pc : ReadPc)
  | done

/-- The ring with the variables of `Test`. `rands` counts the calls of `rand`, and `wrBuf` has the
words of the turn. -/
structure FifoTest where
  fifo : BlockFifo
  mem : Mem UInt8
  rands : Nat
  wrBuf : List UInt32
  wrSeed : UInt32
  rdSeed : UInt32
  read : Nat
  errors : Nat
  pc : TestPc

namespace FifoTest

def bufSize : Nat := 128 * 1024

def start (blkSize blkCount : Nat) : FifoTest where
  fifo := .new blkSize blkCount
  mem _ := 0
  rands := 0
  wrBuf := []
  wrSeed := 0
  rdSeed := 0
  read := 0
  errors := 0
  pc := .loop

/-- A word that was read, against the counter and the errors so far. -/
def check (s : UInt32 × Nat) (w : UInt32) : UInt32 × Nat :=
  if s.1 ≠ w then (w + 1, s.2 + 1) else (s.1 + 1, s.2)

/-- The next step of `Test` for `count` words. -/
def step (rand : Nat → Nat) (count : Nat) (s : FifoTest) : FifoTest :=
  match s.pc with
  | .done => s
  | .loop =>
    if s.read < count then
      let wrLen := rand s.rands % bufSize + 1
      { s with
        rands := s.rands + 1
        wrBuf := (List.range wrLen).map fun i => s.wrSeed + UInt32.ofNat i
        pc := .write (.loop 0) }
    else { s with pc := .done }
  | .write (.done wrAmt) =>
    let rdLen := rand s.rands % bufSize + 1
    { s with
      rands := s.rands + 1, wrSeed := s.wrSeed + UInt32.ofNat (wrAmt / 4)
      pc := .read (if rdLen > count - s.read then count - s.read else rdLen) (.loop []) }
  | .write pc =>
    let (fifo, mem, pc) := s.fifo.writeStep (ofWords s.wrBuf) s.mem pc
    { s with fifo := fifo, mem := mem, pc := .write pc }
  | .read _ (.done rdBuf) =>
    let (rdSeed, errors) := (words rdBuf).foldl check (s.rdSeed, s.errors)
    { s with
      rdSeed := rdSeed, errors := errors, read := s.read + (words rdBuf).length, pc := .loop }
  | .read rdLen pc =>
    let (fifo, pc) := s.fifo.readStep (rdLen * 4) s.mem pc
    { s with fifo := fifo, pc := .read rdLen pc }

/-- The words of the counter from one value on. -/
def counter (from_ n : Nat) : List UInt32 := (List.range n).map fun i => UInt32.ofNat (from_ + i)

@[simp] theorem length_counter (k n : Nat) : (counter k n).length = n := by
  rw [counter, List.length_map, List.length_range]

theorem counter_add (k n j : Nat) : counter k (n + j) = counter k n ++ counter (k + n) j := by
  simp only [counter, List.range_add, List.map_append, List.map_map]
  congr 2
  funext i
  simp only [Function.comp_apply, Nat.add_assoc]

theorem take_counter (k : Nat) (h : j ≤ n) : (counter k n).take j = counter k j := by
  obtain ⟨i, rfl⟩ := Nat.exists_eq_add_of_le h
  rw [counter_add, List.take_left' (length_counter k j)]

theorem check_counter (k n e : Nat) :
    (counter k n).foldl check (UInt32.ofNat k, e) = (UInt32.ofNat (k + n), e) := by
  induction n generalizing k with
  | zero => rfl
  | succ n ih =>
    have hone : counter k 1 = [UInt32.ofNat k] := rfl
    have hnext : check (UInt32.ofNat k, e) (UInt32.ofNat k) = (UInt32.ofNat (k + 1), e) := by
      rw [check, if_neg (fun hne => hne rfl), UInt32.ofNat_add]
      rfl
    rw [Nat.add_comm n 1, counter_add, hone, List.singleton_append, List.foldl_cons, hnext, ih,
      Nat.add_assoc]

theorem step_write {s : FifoTest} (hx : s.pc = .write x) (hd : ∀ k, x ≠ .done k)
    (he : write (ofWords s.wrBuf) (s.fifo, s.mem, x) = (f', m', x')) (rand : Nat → Nat)
    (count : Nat) : step rand count s = { s with fifo := f', mem := m', pc := .write x' } := by
  cases x with
  | done k => exact absurd rfl (hd k)
  | loop | copy | copied =>
    rw [write] at he
    simp only [step, hx, he]

theorem step_read {s : FifoTest} (hx : s.pc = .read rdLen x) (hd : ∀ bs, x ≠ .done bs)
    (he : BlockFifo.read (rdLen * 4) s.mem (s.fifo, x) = (f', x')) (rand : Nat → Nat)
    (count : Nat) : step rand count s = { s with fifo := f', pc := .read rdLen x' } := by
  cases x with
  | done bs => exact absurd rfl (hd bs)
  | loop | copy | copied =>
    rw [BlockFifo.read] at he
    simp only [step, hx, he]

theorem comes_write {s : FifoTest} (h : Sys.Comes (write (ofWords s.wrBuf)) (s.fifo, s.mem, x)
      (f', m', .done k)) (hx : s.pc = .write x) (rand : Nat → Nat) (count : Nat) :
    Sys.Comes (step rand count) s { s with fifo := f', mem := m', pc := .write (.done k) } := by
  obtain ⟨n, h⟩ := h
  induction n generalizing s x with
  | zero =>
    cases h
    exact ⟨0, congrArg (fun pc => { s with pc := pc }) hx⟩
  | succ n ih =>
    by_cases hd : ∃ w, x = .done w
    · obtain ⟨w, rfl⟩ := hd
      exact ih hx h
    · rcases he : write (ofWords s.wrBuf) (s.fifo, s.mem, x) with ⟨f₁, m₁, x₁⟩
      apply Sys.Comes.head
      rw [step_write hx (fun w hw => hd ⟨w, hw⟩) he]
      apply ih (s := { s with fifo := f₁, mem := m₁, pc := .write x₁ })
      · rfl
      · rw [Function.iterate_succ_apply, he] at h
        exact h

theorem comes_read {s : FifoTest} (h : Sys.Comes (BlockFifo.read (rdLen * 4) s.mem) (s.fifo, x)
      (f', .done bs)) (hx : s.pc = .read rdLen x) (rand : Nat → Nat) (count : Nat) :
    Sys.Comes (step rand count) s { s with fifo := f', pc := .read rdLen (.done bs) } := by
  obtain ⟨n, h⟩ := h
  induction n generalizing s x with
  | zero =>
    cases h
    exact ⟨0, congrArg (fun pc => { s with pc := pc }) hx⟩
  | succ n ih =>
    by_cases hd : ∃ out, x = .done out
    · obtain ⟨out, rfl⟩ := hd
      exact ih hx h
    · rcases he : BlockFifo.read (rdLen * 4) s.mem (s.fifo, x) with ⟨f₁, x₁⟩
      apply Sys.Comes.head
      rw [step_read hx (fun out ho => hd ⟨out, ho⟩) he]
      apply ih (s := { s with fifo := f₁, pc := .read rdLen x₁ })
      · rfl
      · rw [Function.iterate_succ_apply, he] at h
        exact h

/-- What the ring is like all along: its blocks hold whole words and none is empty. -/
structure Whole (b c : Nat) (f : BlockFifo) : Prop where
  inv : f.Inv
  blocks : NoEmpty f
  blkSize : f.blkSize = b
  blkCount : f.blkCount = c

/-- `Write` under way from a ring with that much room. -/
structure Writes (b c : Nat) (buf : List UInt8) (n : Nat) (s : BlockFifo × Mem UInt8 × WritePc) :
    Prop where
  whole : Whole b c s.1
  ok : s.1.WriteOk buf.length s.2.2
  room : s.1.room + s.2.2.written = n

/-- What holds at each point of `Read` for `len` bytes. -/
def ReadOk (f : BlockFifo) (len : Nat) : ReadPc → Prop
  | .loop _ | .done _ => True
  | .copy out p => out.length < len ∧ f.Reading p
  | .copied _ amt => 0 < amt ∧ ∃ p, f.Reading p ∧ amt ≤ p.maxAmt

/-- `Read` under way. -/
structure Reads (b c len : Nat) (s : BlockFifo × ReadPc) : Prop where
  whole : Whole b c s.1
  ok : ReadOk s.1 len s.2

theorem write_writes (h : Writes b c buf n (f, m, x)) : Writes b c buf n (write buf (f, m, x)) := by
  obtain ⟨⟨hi, hn, hb, hc⟩, hok, hroom⟩ := h
  rcases hs : f.writeStep buf m x with ⟨f', m', x'⟩
  obtain ⟨hk, hn', hok'⟩ := writeStep_keeps hi hn hok hs
  rw [write, hs]
  have hsame : f'.blkSize = f.blkSize ∧ f'.blkCount = f.blkCount ∧
      f'.room + x'.written = f.room + x.written := by
    cases writeStep_cases hs with
    | room hlt hw =>
      have hsame := writeStart_same hi hw
      exact ⟨hsame.blkSize, hsame.blkCount, congrArg (· + _) (room_writeStart hi hw)⟩
    | full hw =>
      obtain ⟨rfl, _⟩ := writeStart_none hw
      exact ⟨rfl, rfl, rfl⟩
    | finish | copy | done => exact ⟨rfl, rfl, rfl⟩
    | @copied written amt =>
      obtain ⟨hpos, p, hp, hle⟩ := hok
      obtain ⟨_, _, hsize, hcount⟩ := writeComplete_tail f amt
      have hfree : (f.writeComplete amt).room + amt = f.room := room_writeComplete hi hp hpos hle
      refine ⟨hsize, hcount, ?_⟩
      simp only [WritePc.written]
      omega
  exact ⟨⟨hk.inv, hn', hsame.1.trans hb, hsame.2.1.trans hc⟩, hok', hsame.2.2.trans hroom⟩

theorem read_reads (h : Reads b c len (f, x)) (m : Mem UInt8) :
    Reads b c len (BlockFifo.read len m (f, x)) := by
  obtain ⟨⟨hi, hn, hb, hc⟩, hok⟩ := h
  rw [BlockFifo.read]
  cases x with
  | done out => exact ⟨⟨hi, hn, hb, hc⟩, trivial⟩
  | loop out =>
    simp only [readStep]
    split
    · next hlt =>
      rcases hr : f.readStart with ⟨f', p⟩
      have hn' := hn.readStart hi hr
      cases p with
      | none =>
        obtain ⟨rfl, _⟩ := readStart_none hr
        exact ⟨⟨hi, hn, hb, hc⟩, trivial⟩
      | some p =>
        have hsame := readStart_same hi hr
        have hreading := (readStart_cases hi hr).2.2
        exact ⟨⟨readStart_inv hi hr, hn', hsame.blkSize.trans hb, hsame.blkCount.trans hc⟩, hlt,
          hreading⟩
    · exact ⟨⟨hi, hn, hb, hc⟩, trivial⟩
  | copy out p =>
    obtain ⟨hlt, hp⟩ := hok
    have hpos := turnAmt_pos (Nat.sub_pos_of_lt hlt) (hn.reading hi hp)
    exact ⟨⟨hi, hn, hb, hc⟩, hpos, p, hp, (turnAmt_le ..).2⟩
  | copied out amt =>
    obtain ⟨hpos, p, hp, hle⟩ := hok
    have hsame : SameFill f (f.readComplete amt) := readComplete_same hi hp
    exact ⟨⟨readComplete_inv hi hp hle, hn.readComplete hi hp hle, hsame.blkSize.trans hb,
      hsame.blkCount.trans hc⟩, trivial⟩

/-- The ring and the seeds between two turns, when `w` words were written and `r` read back. -/
structure Passes (b c w r : Nat) (s : FifoTest) : Prop where
  whole : Whole b c s.fifo
  filled : s.fifo.filled % 4 = 0
  le : r ≤ w
  content : s.fifo.unread s.mem ++ s.fifo.filling s.mem = ofWords (counter r (w - r))
  wrSeed : s.wrSeed = UInt32.ofNat w
  rdSeed : s.rdSeed = UInt32.ofNat r
  read : s.read = r
  errors : s.errors = 0

theorem room_mod {f : BlockFifo} (h : Whole b c f) (hb : b % 4 = 0) :
    f.room % 4 = 0 ↔ f.filled % 4 = 0 := by
  have hle : f.filled ≤ (c - 1 - f.count) * b := by
    cases ho : f.outBlk with
    | none =>
      rw [BlockFifo.filled, ho]
      exact Nat.zero_le _
    | some o =>
      obtain ⟨_, hcount, hlen, _⟩ := h.inv.out o ho
      rw [h.blkCount] at hcount
      rw [h.blkSize] at hlen
      rw [BlockFifo.filled, ho]
      have hone : 1 ≤ c - 1 - f.count := by omega
      exact Nat.le_trans (Nat.le_of_lt hlen) (Nat.le_mul_of_pos_left b hone)
  have hmul : (c - 1 - f.count) * b % 4 = 0 := by
    rw [Nat.mul_mod, hb, Nat.mul_zero, Nat.zero_mod]
  rw [room, h.blkCount, h.blkSize]
  omega

theorem unread_pos {f : BlockFifo} (h : Whole b c f) (hc : 2 ≤ c) (hr : f.room = 0)
    (m : Mem UInt8) : 0 < (f.unread m).length := by
  have hcount : 0 < f.count := by
    have hfilled := h.inv.filled_lt
    have hpos := h.inv.size_pos
    apply Nat.pos_of_ne_zero
    intro hz
    rw [room, hz, h.blkCount] at hr
    obtain ⟨k, hk⟩ : ∃ k, c - 1 - 0 = k + 1 := ⟨c - 2, by omega⟩
    rw [hk, Nat.succ_mul] at hr
    omega
  have hmem := h.inv.tail_mem hcount
  have hlt := h.blocks _ hmem
  apply List.length_pos_iff.2
  intro hnil
  have htail := congrArg List.length (List.flatMap_eq_nil_iff.1 hnil _ hmem)
  rw [blockBytes, Mem.length_load, List.length_nil] at htail
  omega

theorem write_counter (h : Passes b c w r s) (hb : b % 4 = 0) (n : Nat) :
    ∃ f' m' k, Sys.Comes (write (ofWords (counter w n))) (s.fifo, s.mem, .loop 0)
        (f', m', .done (4 * k)) ∧
      Whole b c f' ∧ f'.filled % 4 = 0 ∧ k ≤ n ∧ (k = 0 → n = 0 ∨ f'.room = 0) ∧
      f'.unread m' ++ f'.filling m' = ofWords (counter r (w + k - r)) := by
  obtain ⟨f', m', k, hcomes, hi, hk, hcont⟩ :=
    write_loop h.whole.inv (ofWords (counter w n)) s.mem (Nat.zero_le _)
  rw [Nat.zero_add] at hcomes
  have hwrites : Writes b c (ofWords (counter w n)) s.fifo.room (f', m', .done k) :=
    hcomes.invariant (fun _ => write_writes) ⟨h.whole, trivial, rfl⟩
  have hroom : f'.room + k = s.fifo.room := hwrites.room
  have hfour := (room_mod h.whole hb).2 h.filled
  rw [length_ofWords, length_counter, Nat.sub_zero] at hk
  obtain ⟨j, rfl⟩ : ∃ j, k = 4 * j := ⟨k / 4, by omega⟩
  have hj : j ≤ n := by omega
  refine ⟨f', m', j, hcomes, hwrites.whole, ?_, hj, ?_, ?_⟩
  · have hfree : f'.room % 4 = 0 := by omega
    exact (room_mod hwrites.whole hb).1 hfree
  · intro hz
    omega
  · have hle := h.le
    have hsplit : w + j - r = (w - r) + j := by omega
    have hfrom : r + (w - r) = w := by omega
    rw [hcont, h.content, List.drop_zero, take_ofWords, take_counter w hj, hsplit, counter_add,
      hfrom, ofWords_append]

theorem read_counter {f : BlockFifo} {m : Mem UInt8} (hf : Whole b c f) (hfill : f.filled % 4 = 0)
    (hcont : f.unread m ++ f.filling m = ofWords (counter r n)) (len : Nat) :
    ∃ f' k, Sys.Comes (BlockFifo.read (len * 4) m) (f, .loop [])
        (f', .done (ofWords (counter r k))) ∧
      Whole b c f' ∧ f'.filled % 4 = 0 ∧ k ≤ len ∧ k ≤ n ∧
      (0 < len → 0 < (f.unread m).length → 0 < k) ∧
      f'.unread m ++ f'.filling m = ofWords (counter (r + k) (n - k)) := by
  have hnil : ([] : List UInt8).length ≤ len * 4 := Nat.zero_le _
  obtain ⟨f', bs, hcomes, hi, hbs, hunread, hfilling⟩ := read_loop hf.inv (len * 4) m hnil
  rw [List.nil_append] at hcomes
  have hreads : Reads b c (len * 4) (f', .done bs) :=
    hcomes.invariant (fun _ h => read_reads h m) ⟨hf, trivial⟩
  have hfilled : f'.filled = f.filled := by
    rw [← length_filling f' m, hfilling, length_filling]
  have hlen := congrArg List.length hcont
  rw [List.length_append, length_filling, length_ofWords, length_counter] at hlen
  rw [List.length_nil, Nat.sub_zero] at hbs
  obtain ⟨k, hk⟩ : ∃ k, bs.length = 4 * k := ⟨bs.length / 4, by omega⟩
  have hkn : k ≤ n := by omega
  have hall : bs ++ (f'.unread m ++ f'.filling m) = ofWords (counter r n) := by
    rw [← hcont, hunread, hfilling, List.append_assoc]
  have hsplit : counter r n = counter r k ++ counter (r + k) (n - k) := by
    rw [← counter_add, Nat.add_sub_cancel' hkn]
  have hklen : bs.length = (ofWords (counter r k)).length := by
    rw [hk, length_ofWords, length_counter]
  rw [hsplit, ofWords_append] at hall
  obtain ⟨rfl, hrest⟩ := List.append_inj hall hklen
  exact ⟨f', k, hcomes, hreads.whole, hfilled ▸ hfill, by omega, hkn, by omega, hrest⟩

theorem Passes.bound (h : Passes b c w r s) : 4 * (w - r) ≤ c * b := by
  have hunread := h.whole.inv.unread_length_le s.mem
  have hfilled := h.whole.inv.filled_lt
  have hlen := congrArg List.length h.content
  have hc := h.whole.inv.count_lt
  rw [List.length_append, length_filling, length_ofWords, length_counter] at hlen
  rw [h.whole.blkSize] at hunread hfilled
  rw [h.whole.blkCount] at hunread hc
  obtain ⟨k, rfl⟩ : ∃ k, c = k + 1 := ⟨c - 1, by omega⟩
  rw [Nat.add_sub_cancel] at hunread
  rw [Nat.add_mul k 1 b, Nat.one_mul]
  omega

theorem step_loop (h : Passes b c w r s) (hpc : s.pc = .loop) (hlt : r < count)
    (rand : Nat → Nat) :
    step rand count s = { s with
      rands := s.rands + 1, wrBuf := counter w (rand s.rands % bufSize + 1)
      pc := .write (.loop 0) } := by
  have hbuf (n : Nat) : ((List.range n).map fun i => s.wrSeed + UInt32.ofNat i) = counter w n := by
    simp only [h.wrSeed, ← UInt32.ofNat_add, counter]
  rw [← h.read] at hlt
  simp only [step, hpc, if_pos hlt, hbuf]

theorem step_written {s : FifoTest} (hpc : s.pc = .write (.done (4 * k)))
    (hw : s.wrSeed = UInt32.ofNat w) (rand : Nat → Nat) (hl : len =
      if rand s.rands % bufSize + 1 > count - s.read then count - s.read
      else rand s.rands % bufSize + 1) :
    step rand count s = { s with
      rands := s.rands + 1, wrSeed := UInt32.ofNat (w + k), pc := .read len (.loop []) } := by
  have hdiv : 4 * k / 4 = k := by omega
  simp only [step, hpc, hdiv, hw, UInt32.ofNat_add, hl]

theorem step_check {s : FifoTest} (hpc : s.pc = .read len (.done (ofWords (counter r j))))
    (hr : s.rdSeed = UInt32.ofNat r) (rand : Nat → Nat) (count : Nat) :
    step rand count s = { s with
      rdSeed := UInt32.ofNat (r + j), read := s.read + j, pc := .loop } := by
  simp only [step, hpc, words_ofWords, hr, check_counter, length_counter]

theorem turn (h : Passes b c w r s) (hb : b % 4 = 0) (hc : 2 ≤ c) (hpc : s.pc = .loop)
    (hlt : r < count) (rand : Nat → Nat) :
    ∃ t w' r', Sys.Comes (step rand count) s t ∧ t.pc = .loop ∧ Passes b c w' r' t ∧
      w + r < w' + r' ∧ r' ≤ count := by
  obtain ⟨f₁, m₁, k, hwrite, hwhole, hfour, hk, hmoved, hcont⟩ :=
    write_counter h hb (rand s.rands % bufSize + 1)
  obtain ⟨len, hlen⟩ : ∃ len, len = if rand (s.rands + 1) % bufSize + 1 > count - s.read then
      count - s.read else rand (s.rands + 1) % bufSize + 1 := ⟨_, rfl⟩
  have hread := h.read
  have hpos : 0 < len ∧ len ≤ count - r := by
    rw [hlen]
    split <;> omega
  obtain ⟨f₂, j, hrd, hwhole₂, hfour₂, hj, hj', hgets, hcont₂⟩ :=
    read_counter hwhole hfour hcont len
  have hle := h.le
  have hcount : r + j ≤ count := by omega
  have hmore : w + r < w + k + (r + j) := by
    by_cases hk0 : k = 0
    · have hroom := (hmoved hk0).resolve_left (Nat.succ_ne_zero _)
      have hj0 := hgets hpos.1 (unread_pos hwhole hc hroom m₁)
      omega
    · omega
  have hfill := step_loop h hpc hlt rand
  have hwritten := comes_write (s := { s with
    rands := s.rands + 1, wrBuf := counter w (rand s.rands % bufSize + 1)
    pc := .write (.loop 0) }) hwrite rfl rand count
  have hnext := step_written (s := { s with
    fifo := f₁, mem := m₁, rands := s.rands + 1, wrBuf := counter w (rand s.rands % bufSize + 1)
    pc := .write (.done (4 * k)) }) rfl h.wrSeed rand hlen
  have hgot := comes_read (s := { s with
    fifo := f₁, mem := m₁, rands := s.rands + 1 + 1
    wrBuf := counter w (rand s.rands % bufSize + 1), wrSeed := UInt32.ofNat (w + k)
    pc := .read len (.loop []) }) hrd rfl rand count
  have hcheck := step_check (s := { s with
    fifo := f₂, mem := m₁, rands := s.rands + 1 + 1
    wrBuf := counter w (rand s.rands % bufSize + 1), wrSeed := UInt32.ofNat (w + k)
    pc := .read len (.done (ofWords (counter r j))) }) rfl h.rdSeed rand count
  have hcomes := (Sys.Comes.single hfill).trans (hwritten.trans ((Sys.Comes.single hnext).trans
    (hgot.trans (.single hcheck))))
  refine ⟨_, w + k, r + j, hcomes, rfl, ?_, hmore, hcount⟩
  refine ⟨hwhole₂, hfour₂, by omega, ?_, rfl, rfl, congrArg (· + j) hread, h.errors⟩
  rw [Nat.sub_add_eq]
  exact hcont₂

theorem start_passes {b c : Nat} (hb : 0 < b) (hc : 2 ≤ c) : Passes b c 0 0 (start b c) where
  whole := ⟨new_inv hb (Nat.lt_of_lt_of_le Nat.zero_lt_two hc), .new b c, rfl, rfl⟩
  filled := rfl
  le := Nat.le_refl _
  content := rfl
  wrSeed := rfl
  rdSeed := rfl
  read := rfl
  errors := rfl

/-- From any turn on, the loop comes to its end, and no word was wrong. -/
theorem passes_comes (h : Passes b c w r s) (hb : b % 4 = 0) (hc : 2 ≤ c) (hpc : s.pc = .loop)
    (hle : r ≤ count) (rand : Nat → Nat) :
    ∃ t, Sys.Comes (step rand count) s t ∧ t.pc = .done ∧ t.errors = 0 ∧ t.read = count := by
  -- what is written stays within a ring of what is read
  induction hn : (count - r) + (count + c * b - w) using Nat.strong_induction_on
    generalizing s w r with
  | _ n ih =>
    have hbound := h.bound
    by_cases hlt : r < count
    · obtain ⟨u, w', r', hcomes, hpc', h', hmore, hle'⟩ := turn h hb hc hpc hlt rand
      have hbound' := h'.bound
      have hle₁ := h.le
      have hle₂ := h'.le
      obtain ⟨t, ht, hdone⟩ := ih _ (by omega) h' hpc' hle' rfl
      exact ⟨t, hcomes.trans ht, hdone⟩
    · have hr : r = count := Nat.le_antisymm hle (Nat.le_of_not_lt hlt)
      have hstep : step rand count s = { s with pc := .done } := by
        have hread : ¬s.read < count := h.read.symm ▸ hlt
        simp only [step, hpc, if_neg hread]
      refine ⟨{ s with pc := .done }, ?_, rfl, h.errors, h.read.trans hr⟩
      apply Sys.Comes.head
      rw [hstep]
      exact .refl ..

/-- `Test` ends without an error on a new ring whose blocks hold whole words, whatever `rand`
returns. -/
theorem test_passes {b c : Nat} (hb : 0 < b) (hb4 : b % 4 = 0) (hc : 2 ≤ c) (rand : Nat → Nat)
    (size : Nat) : ∃ t, Sys.Comes (step rand (size / 4 % 2 ^ 32)) (start b c) t ∧
      t.pc = .done ∧ t.errors = 0 ∧ t.read = size / 4 % 2 ^ 32 :=
  passes_comes (start_passes hb hc) hb4 hc rfl (Nat.zero_le _) rand

/-- Sixteen words through blocks of two. -/
theorem test_passes_small : ∃ t, Sys.Comes (step (fun i => 7 * i) 16) (start 8 2) t ∧
    t.pc = .done ∧ t.errors = 0 ∧ t.read = 16 :=
  test_passes (by decide) (by decide) (by decide) (fun i => 7 * i) 64

end FifoTest
end Avs4000
