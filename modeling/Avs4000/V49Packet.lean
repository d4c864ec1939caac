import Avs4000.Lib.Memory

namespace Avs4000
open Memory
set_option autoImplicit true

/-- The packed header. A field is as wide as its bit-field. -/
@[ext] structure V49Header where
  vrlp : UInt32
  frameSize : BitVec 20
  frameCount : BitVec 12
  pktSize : UInt16
  pktCount : BitVec 4
  tsf : BitVec 2
  tsi : BitVec 2
  rr : BitVec 2
  T : BitVec 1
  C : BitVec 1
  pktType : BitVec 4
  streamId : UInt32
  timeInt : UInt32
  mswTimeFrac : UInt32
  lswTimeFrac : UInt32
  deriving DecidableEq

namespace V49Header

def zero : V49Header := ⟨0, 0, 0, 0, 0, 0, 0, 0, 0, 0, 0, 0, 0, 0, 0⟩

def size : Nat := 28

/-- The words of the struct in memory. Bit-fields fill a word from its least significant bit. -/
def toWords (h : V49Header) : List UInt32 :=
  [h.vrlp,
    UInt32.ofNat (h.frameSize.toNat + 2 ^ 20 * h.frameCount.toNat),
    UInt32.ofNat (h.pktSize.toNat + 2 ^ 16 * h.pktCount.toNat + 2 ^ 20 * h.tsf.toNat +
      2 ^ 22 * h.tsi.toNat + 2 ^ 24 * h.rr.toNat + 2 ^ 26 * h.T.toNat + 2 ^ 27 * h.C.toNat +
      2 ^ 28 * h.pktType.toNat),
    h.streamId, h.timeInt, h.mswTimeFrac, h.lswTimeFrac]

def ofWords (w₀ w₁ w₂ w₃ w₄ w₅ w₆ : UInt32) : V49Header where
  vrlp := w₀
  frameSize := BitVec.ofNat 20 w₁.toNat
  frameCount := BitVec.ofNat 12 (w₁.toNat / 2 ^ 20)
  pktSize := UInt16.ofNat w₂.toNat
  pktCount := BitVec.ofNat 4 (w₂.toNat / 2 ^ 16)
  tsf := BitVec.ofNat 2 (w₂.toNat / 2 ^ 20)
  tsi := BitVec.ofNat 2 (w₂.toNat / 2 ^ 22)
  rr := BitVec.ofNat 2 (w₂.toNat / 2 ^ 24)
  T := BitVec.ofNat 1 (w₂.toNat / 2 ^ 26)
  C := BitVec.ofNat 1 (w₂.toNat / 2 ^ 27)
  pktType := BitVec.ofNat 4 (w₂.toNat / 2 ^ 28)
  streamId := w₃
  timeInt := w₄
  mswTimeFrac := w₅
  lswTimeFrac := w₆

def toBytes (h : V49Header) : List UInt8 := Memory.ofWords h.toWords

/-- The header as `CopyHeader` reads it, word by word. -/
def read (m : Mem UInt8) (a : Addr) : V49Header :=
  ofWords (m.loadWord a) (m.loadWord (a + 4)) (m.loadWord (a + 8)) (m.loadWord (a + 12))
    (m.loadWord (a + 16)) (m.loadWord (a + 20)) (m.loadWord (a + 24))

theorem ofWords_toWords (h : V49Header) :
    h.toWords = [w₀, w₁, w₂, w₃, w₄, w₅, w₆] → ofWords w₀ w₁ w₂ w₃ w₄ w₅ w₆ = h := by
  intro he
  simp only [toWords, List.cons.injEq, and_true] at he
  obtain ⟨rfl, rfl, rfl, rfl, rfl, rfl, rfl⟩ := he
  have h₁ := h.frameSize.isLt
  have h₂ := h.frameCount.isLt
  have h₃ := h.pktSize.toNat_lt
  have h₄ := h.pktCount.isLt
  have h₅ := h.tsf.isLt
  have h₆ := h.tsi.isLt
  have h₇ := h.rr.isLt
  have h₈ := h.T.isLt
  have h₉ := h.C.isLt
  have h₁₀ := h.pktType.isLt
  have hw₁ : h.frameSize.toNat + 2 ^ 20 * h.frameCount.toNat < 2 ^ 32 := by omega
  have hw₂ : h.pktSize.toNat + 2 ^ 16 * h.pktCount.toNat + 2 ^ 20 * h.tsf.toNat +
      2 ^ 22 * h.tsi.toNat + 2 ^ 24 * h.rr.toNat + 2 ^ 26 * h.T.toNat + 2 ^ 27 * h.C.toNat +
      2 ^ 28 * h.pktType.toNat < 2 ^ 32 := by omega
  ext1 <;> simp only [ofWords, UInt32.toNat_ofNat_of_lt' hw₁, UInt32.toNat_ofNat_of_lt' hw₂]
  case pktSize =>
    apply UInt16.toNat_inj.1
    rw [UInt16.toNat_ofNat']
    omega
  all_goals
    apply BitVec.eq_of_toNat_eq
    rw [BitVec.toNat_ofNat]
    omega

theorem toWords_ofWords (w₀ w₁ w₂ w₃ w₄ w₅ w₆ : UInt32) :
    (ofWords w₀ w₁ w₂ w₃ w₄ w₅ w₆).toWords = [w₀, w₁, w₂, w₃, w₄, w₅, w₆] := by
  have h₁ := w₁.toNat_lt
  have h₂ := w₂.toNat_lt
  have hw₁ : UInt32.ofNat (w₁.toNat % 2 ^ 20 + 2 ^ 20 * (w₁.toNat / 2 ^ 20 % 2 ^ 12)) = w₁ := by
    apply UInt32.toNat_inj.1
    rw [UInt32.toNat_ofNat']
    omega
  have hw₂ : UInt32.ofNat (w₂.toNat % 2 ^ 16 + 2 ^ 16 * (w₂.toNat / 2 ^ 16 % 2 ^ 4) +
      2 ^ 20 * (w₂.toNat / 2 ^ 20 % 2 ^ 2) + 2 ^ 22 * (w₂.toNat / 2 ^ 22 % 2 ^ 2) +
      2 ^ 24 * (w₂.toNat / 2 ^ 24 % 2 ^ 2) + 2 ^ 26 * (w₂.toNat / 2 ^ 26 % 2 ^ 1) +
      2 ^ 27 * (w₂.toNat / 2 ^ 27 % 2 ^ 1) + 2 ^ 28 * (w₂.toNat / 2 ^ 28 % 2 ^ 4)) = w₂ := by
    apply UInt32.toNat_inj.1
    rw [UInt32.toNat_ofNat']
    omega
  simp only [toWords, ofWords, BitVec.toNat_ofNat, UInt16.toNat_ofNat']
  rw [hw₁, hw₂]

theorem read_eq (m : Mem UInt8) (hb : m.load a size = h.toBytes) : read m a = h := by
  apply ofWords_toWords
  have hw : m.loadWords a 7 = h.toWords := by
    rw [Mem.loadWords, show 4 * 7 = size from rfl, hb, toBytes, words_ofWords]
  rw [← hw]
  simp only [Mem.loadWords_succ, Mem.loadWords_zero, Addr.add_add]

theorem toBytes_read (m : Mem UInt8) (a : Addr) : (read m a).toBytes = m.load a size := by
  have hw : (read m a).toWords = m.loadWords a 7 := by
    simp only [read, toWords_ofWords, Mem.loadWords_succ, Mem.loadWords_zero, Addr.add_add]
  rw [toBytes, hw, Mem.loadWords]
  exact ofWords_words 7 (Mem.length_load ..)

@[simp] theorem length_toBytes (h : V49Header) : h.toBytes.length = size := length_ofWords ..

end V49Header

/-- A packet keeps pointers to its samples and its buffer, not their bytes. -/
structure V49Packet where
  valid : Bool
  header : V49Header
  samples : Option Addr
  samplesLen : Nat
  trailer : UInt32
  buffer : Option Addr
  bufLen : Nat

namespace V49Packet

/-- The fields that the constructor leaves uninitialised are zero here. -/
def new : V49Packet := ⟨false, .zero, none, 0, 0, none, 0⟩

/-- The subtractions are on `size_t`; the result is stored as a `quint32`. -/
def samplesFor (len : Nat) : Nat := (len + 2 ^ 64 - V49Header.size - 4) % 2 ^ 64 / 4 % 2 ^ 32

def validate (p : V49Packet) : V49Packet :=
  { p with valid :=
      if p.header.frameSize ≠ 0x800 then false
      else if p.header.vrlp ≠ 0x56524C50 then false
      else if p.header.frameSize = 0 then false
      else if p.header.rr ≠ 0 then false
      else if p.header.C = 1 then false
      else if p.header.T = 1 then false
      else if ¬(p.header.pktType = 1 ∨ p.header.pktType = 3) then false
      else if p.trailer ≠ 0x56454E44 then false
      else true }

/-- `Init`, on the packet bytes at `data`. -/
def init (p : V49Packet) (m : Mem UInt8) (data : Addr) (len : Nat) : V49Packet :=
  let samples := data + V49Header.size
  { p with
    header := .read m data
    samples := some samples
    samplesLen := samplesFor len
    trailer := m.loadWord (samples + 4 * samplesFor len) }.validate

/-- The header that `InitHeaderTrailer` fills in after clearing the struct. -/
def txHeader (dn : UInt8) (stream : UInt16) (nextFrameCount : UInt16) (nextPacketCount : UInt8) :
    V49Header :=
  { V49Header.zero with
    vrlp := 0x56524C50
    pktType := 1
    frameSize := 0x0800
    frameCount := BitVec.ofNat 12 nextFrameCount.toNat
    pktSize := 0x7fd
    pktCount := BitVec.ofNat 4 (nextPacketCount.toNat % 0x10)
    tsi := 1
    tsf := 1
    streamId := dn.toUInt32 <<< 16 ||| stream.toUInt32 }

def initHeaderTrailer (p : V49Packet) (dn : UInt8) (stream : UInt16) (nextFrameCount : UInt16)
    (nextPacketCount : UInt8) : V49Packet × UInt16 × UInt8 :=
  ({ p with
      header := txHeader dn stream nextFrameCount nextPacketCount
      trailer := 0x56454E44 },
    nextFrameCount + 1, nextPacketCount + 1)

def make (p : V49Packet) (dn : UInt8) (stream : UInt16) (samples : Addr) (len : Nat)
    (nextFrameCount : UInt16) (nextPacketCount : UInt8) : V49Packet × UInt16 × UInt8 :=
  let (p, counts) := p.initHeaderTrailer dn stream nextFrameCount nextPacketCount
  ({ p with samples := some samples, samplesLen := len }, counts)

def attach (p : V49Packet) (m : Mem UInt8) (dn : UInt8) (stream : UInt16) (buffer : Addr)
    (len : Nat) (nextFrameCount : UInt16) (nextPacketCount : UInt8) :
    V49Packet × Mem UInt8 × UInt16 × UInt8 :=
  let p := { p with valid := false, buffer := some buffer, bufLen := len }
  let (p, counts) := p.initHeaderTrailer dn stream nextFrameCount nextPacketCount
  let p := { p with samples := none, samplesLen := samplesFor len }
  let m := m.store buffer p.header.toBytes
  let m := m.store (buffer + (V49Header.size + 4 * p.samplesLen)) (toLE 4 p.trailer.toNat)
  (p, m, counts)

/-- `Copy`. A packet without samples has nothing to copy between header and trailer. -/
def copy (p : V49Packet) (m : Mem UInt8) (dest : Addr) : Mem UInt8 :=
  let m := m.store dest p.header.toBytes
  let ptr := dest + V49Header.size
  let m := match p.samples with
    | some samples => m.store ptr (m.load samples (4 * p.samplesLen))
    | none => m
  m.store (ptr + 4 * p.samplesLen) (toLE 4 p.trailer.toNat)

def sampleBuffer (p : V49Packet) : Option Addr := p.buffer.map (· + V49Header.size)

def isValid (p : V49Packet) : Bool := p.valid

def frameCount (p : V49Packet) : UInt16 := UInt16.ofNat p.header.frameCount.toNat

def frameSize (p : V49Packet) : UInt32 := UInt32.ofNat p.header.frameSize.toNat

def packetSize (p : V49Packet) : UInt16 := p.header.pktSize

def packetCount (p : V49Packet) : UInt8 := UInt8.ofNat p.header.pktCount.toNat

def tsf (p : V49Packet) : UInt8 := UInt8.ofNat p.header.tsf.toNat

def tsi (p : V49Packet) : UInt8 := UInt8.ofNat p.header.tsi.toNat

def rr (p : V49Packet) : UInt8 := UInt8.ofNat p.header.rr.toNat

def cBit (p : V49Packet) : Bool := p.header.C == 1

def tBit (p : V49Packet) : Bool := p.header.T == 1

def pType (p : V49Packet) : UInt8 := UInt8.ofNat p.header.pktType.toNat

def timeInteger (p : V49Packet) : UInt32 := p.header.timeInt

def streamID (p : V49Packet) : UInt32 := p.header.streamId

def timeFraction (p : V49Packet) : UInt64 :=
  p.header.mswTimeFrac.toUInt64 <<< 32 ||| p.header.lswTimeFrac.toUInt64

end V49Packet
end Avs4000
