import Avs4000.Lib.Memory
import Avs4000.Lib.Ring
import Mathlib.Logic.Function.Basic

namespace Avs4000
open Memory Ring
set_option autoImplicit true

structure Block where
  len : Nat
  read : Nat
  size : Nat
  buf : Addr

def Block.reset (b : Block) : Block := { b with len := 0, read := 0 }

/-- A pointer handed out by `writeStart` or `readStart`, with the amount it is good for. -/
structure Region where
  ptr : Addr
  maxAmt : Nat

/-- `inBlk` and `outBlk` point into `blk`, so they are slot numbers here. -/
structure BlockFifo where
  blkSize : Nat
  blkCount : Nat
  head : Nat
  tail : Nat
  count : Nat
  blk : Nat → Block
  inBlk : Option Nat
  outBlk : Option Nat

namespace BlockFifo

/-- Slot `i` owns the buffer with object number `i`. -/
def new (blkSize blkCount : Nat) : BlockFifo where
  blkSize := blkSize
  blkCount := blkCount
  head := 0
  tail := 0
  count := 0
  blk i := { len := 0, read := 0, size := blkSize, buf := ⟨i, 0⟩ }
  inBlk := none
  outBlk := none

def empty (f : BlockFifo) : Prop := f.head = f.tail

def pinc (f : BlockFifo) (ptr : Nat) : Nat := (ptr + 1) % f.blkCount

def full (f : BlockFifo) : Prop := f.pinc f.head = f.tail

instance (f : BlockFifo) : Decidable f.empty := inferInstanceAs (Decidable (_ = _))
instance (f : BlockFifo) : Decidable f.full := inferInstanceAs (Decidable (_ = _))

def setBlk (f : BlockFifo) (i : Nat) (b : Block) : BlockFifo :=
  { f with blk := Function.update f.blk i b }

def reset (f : BlockFifo) : BlockFifo :=
  { f with
    head := 0, tail := 0, count := 0, inBlk := none, outBlk := none
    blk := fun i => if i < f.blkCount then (f.blk i).reset else f.blk i }

/-- The waits end with a last look at the ring, so a call that times out is one that finds
the ring still full. -/
def writeStart (f : BlockFifo) : BlockFifo × Option Region :=
  match f.outBlk with
  | some o => (f, some ⟨(f.blk o).buf + (f.blk o).len, (f.blk o).size - (f.blk o).len⟩)
  | none =>
    if f.full then (f, none)
    else
      let f := { f.setBlk f.head (f.blk f.head).reset with outBlk := some f.head }
      (f, some ⟨(f.blk f.head).buf, (f.blk f.head).size⟩)

def writeComplete (f : BlockFifo) (amt : Nat) : BlockFifo :=
  match f.outBlk with
  | some o =>
    let b := { f.blk o with len := (f.blk o).len + amt }
    let f := f.setBlk o b
    if amt = 0 ∨ b.len = b.size then
      { f with count := f.count + 1, head := f.pinc f.head, outBlk := none }
    else f
  | none => f

def readStart (f : BlockFifo) : BlockFifo × Option Region :=
  match f.inBlk with
  | some i => (f, some ⟨(f.blk i).buf + (f.blk i).read, (f.blk i).len - (f.blk i).read⟩)
  | none =>
    if f.empty then (f, none)
    else
      let f := { f with inBlk := some f.tail }
      (f, some ⟨(f.blk f.tail).buf, (f.blk f.tail).len⟩)

def readComplete (f : BlockFifo) (amt : Nat) : BlockFifo :=
  match f.inBlk with
  | some i =>
    let b := { f.blk i with read := (f.blk i).read + amt }
    let f := f.setBlk i b
    if b.len = b.read then { f with count := f.count - 1, tail := f.pinc f.tail, inBlk := none }
    else f
  | none => f

/-- The committed blocks, oldest first. -/
def ring (f : BlockFifo) : List Nat := slots f.blkCount f.tail f.count

def blockBytes (f : BlockFifo) (m : Mem UInt8) (i : Nat) : List UInt8 :=
  m.load ((f.blk i).buf + (f.blk i).read) ((f.blk i).len - (f.blk i).read)

/-- The unread bytes of the committed blocks, in ring order. -/
def unread (f : BlockFifo) (m : Mem UInt8) : List UInt8 := f.ring.flatMap (f.blockBytes m)

/-- The bytes of the block being filled. -/
def filling (f : BlockFifo) (m : Mem UInt8) : List UInt8 :=
  match f.outBlk with
  | some o => m.load (f.blk o).buf (f.blk o).len
  | none => []

/-- What every operation keeps. The occupancy is tracked twice, by `count` and by the two
indices, and the block being filled lies outside the committed ones. -/
structure Inv (f : BlockFifo) : Prop where
  size_pos : 0 < f.blkSize
  tail_lt : f.tail < f.blkCount
  count_lt : f.count < f.blkCount
  head_eq : f.head = (f.tail + f.count) % f.blkCount
  size : ∀ i, (f.blk i).size = f.blkSize
  buf : ∀ i, (f.blk i).buf = ⟨i, 0⟩
  len_le : ∀ i, (f.blk i).len ≤ f.blkSize
  read_le : ∀ i, (f.blk i).read ≤ (f.blk i).len
  read_zero : ∀ i ∈ f.ring, f.inBlk ≠ some i → (f.blk i).read = 0
  out : ∀ o, f.outBlk = some o →
    o = f.head ∧ f.count + 1 < f.blkCount ∧ (f.blk o).len < f.blkSize ∧ (f.blk o).read = 0
  inn : ∀ i, f.inBlk = some i → i = f.tail ∧ 0 < f.count

/-- The producer holds a region: the free end of the block being filled. -/
def Writing (f : BlockFifo) (r : Region) : Prop :=
  f.outBlk = some f.head ∧ r = ⟨⟨f.head, (f.blk f.head).len⟩, f.blkSize - (f.blk f.head).len⟩

/-- The consumer holds a region: the unread end of the oldest block. -/
def Reading (f : BlockFifo) (r : Region) : Prop :=
  f.inBlk = some f.tail ∧
    r = ⟨⟨f.tail, (f.blk f.tail).read⟩, (f.blk f.tail).len - (f.blk f.tail).read⟩

end BlockFifo
end Avs4000
