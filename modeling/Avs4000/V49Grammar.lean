import Avs4000.V49Agreement

namespace Avs4000
namespace V49Packet
open Memory
set_option autoImplicit true

/-- What a packet's bytes are when `Init` accepts them. -/
structure Grammar (bs : List UInt8) : Prop where
  vrlp : ofLE (bs.take 4) = 0x56524C50
  frameSize : ofLE ((bs.drop 4).take 4) % 2 ^ 20 = 0x800
  flags : ∃ b, bs[11]? = some b ∧ b.toNat % 16 = 0 ∧ (b.toNat / 16 = 1 ∨ b.toNat / 16 = 3)
  vend : ofLE ((bs.drop 8188).take 4) = 0x56454E44

/-- Each accessor reads its own bits. -/
structure Slices (p : V49Packet) (bs : List UInt8) : Prop where
  frameSize : p.frameSize.toNat = bits bs 32 20
  frameCount : p.frameCount.toNat = bits bs 52 12
  packetSize : p.packetSize.toNat = bits bs 64 16
  packetCount : p.packetCount.toNat = bits bs 80 4
  tsf : p.tsf.toNat = bits bs 84 2
  tsi : p.tsi.toNat = bits bs 86 2
  rr : p.rr.toNat = bits bs 88 2
  tBit : p.tBit = true ↔ bits bs 90 1 = 1
  cBit : p.cBit = true ↔ bits bs 91 1 = 1
  pType : p.pType.toNat = bits bs 92 4
  streamID : p.streamID.toNat = bits bs 96 32
  timeInteger : p.timeInteger.toNat = bits bs 128 32
  timeFraction : p.timeFraction.toNat = bits bs 160 32 * 2 ^ 32 + bits bs 192 32

theorem timeFraction_toNat (p : V49Packet) : p.timeFraction.toNat =
    p.header.mswTimeFrac.toNat * 2 ^ 32 + p.header.lswTimeFrac.toNat := by
  have hm := p.header.mswTimeFrac.toNat_lt
  have hl := p.header.lswTimeFrac.toNat_lt
  rw [timeFraction, UInt64.toNat_or, UInt64.toNat_shiftLeft, UInt32.toNat_toUInt64,
    UInt32.toNat_toUInt64]
  change p.header.mswTimeFrac.toNat <<< 32 % 2 ^ 64 ||| p.header.lswTimeFrac.toNat = _
  rw [Nat.shiftLeft_eq, Nat.mod_eq_of_lt (by omega), ← Nat.shiftLeft_eq,
    ← Nat.shiftLeft_add_eq_or_of_lt hl, Nat.shiftLeft_eq]

section
variable (p : V49Packet) (m : Mem UInt8) (data : Addr)

theorem init_header_eq (len : Nat) : (p.init m data len).header = .read m data := rfl

theorem init_samples : (p.init m data 0x2000).samples = some (data + 28) := rfl

theorem init_samplesLen : (p.init m data 0x2000).samplesLen = 2040 := samplesFor_packet

theorem init_trailer : (p.init m data 0x2000).trailer = m.loadWord (data + 8188) := by
  change m.loadWord (data + V49Header.size + 4 * samplesFor 0x2000) = _
  rw [samplesFor_packet, Addr.add_add]
  rfl

theorem word_bits (k off width : Nat) (hk : k + 4 ≤ 28) (h : off + width ≤ 32) :
    (m.loadWord (data + k)).toNat / 2 ^ off % 2 ^ width =
      bits (m.load data 0x2000) (8 * k + off) width := by
  have hn : k + 4 ≤ 0x2000 := by omega
  rw [Mem.bits_load m data hn h]

theorem word_bits_whole (k : Nat) (hk : k + 4 ≤ 28) :
    (m.loadWord (data + k)).toNat = bits (m.load data 0x2000) (8 * k) 32 := by
  have hlt := (m.loadWord (data + k)).toNat_lt
  have hbits := word_bits m data k 0 32 hk (Nat.le_refl _)
  rw [Nat.pow_zero, Nat.div_one, Nat.mod_eq_of_lt hlt] at hbits
  exact hbits

theorem byte_field (k w : Nat) (hk : k ≤ 8) :
    (UInt8.ofNat (BitVec.ofNat k w).toNat).toNat = w % 2 ^ k := by
  have hpow : 2 ^ k ≤ 2 ^ 8 := Nat.pow_le_pow_right (by decide) hk
  have hlt : w % 2 ^ k < 2 ^ k := Nat.mod_lt _ (Nat.two_pow_pos k)
  rw [BitVec.toNat_ofNat, UInt8.toNat_ofNat', Nat.mod_eq_of_lt (Nat.lt_of_lt_of_le hlt hpow)]

theorem bit_eq_one (w : Nat) : (BitVec.ofNat 1 w == 1) = true ↔ w % 2 ^ 1 = 1 := by
  rw [beq_iff_eq, ← BitVec.toNat_inj, BitVec.toNat_ofNat]
  rfl

theorem init_slices : Slices (p.init m data 0x2000) (m.load data 0x2000) := by
  have h₁ := word_bits m data 4
  have h₂ := word_bits m data 8
  have hw := word_bits_whole m data
  constructor
  case frameSize =>
    rw [← h₁ 0 20 (by decide) (by decide)]
    change (UInt32.ofNat (BitVec.ofNat 20 _).toNat).toNat = _
    rw [BitVec.toNat_ofNat, UInt32.toNat_ofNat']
    omega
  case frameCount =>
    rw [← h₁ 20 12 (by decide) (by decide)]
    change (UInt16.ofNat (BitVec.ofNat 12 _).toNat).toNat = _
    rw [BitVec.toNat_ofNat, UInt16.toNat_ofNat']
    omega
  case packetSize =>
    rw [← h₂ 0 16 (by decide) (by decide), Nat.pow_zero, Nat.div_one]
    exact UInt16.toNat_ofNat'
  case packetCount =>
    rw [← h₂ 16 4 (by decide) (by decide)]
    exact byte_field 4 _ (by decide)
  case tsf =>
    rw [← h₂ 20 2 (by decide) (by decide)]
    exact byte_field 2 _ (by decide)
  case tsi =>
    rw [← h₂ 22 2 (by decide) (by decide)]
    exact byte_field 2 _ (by decide)
  case rr =>
    rw [← h₂ 24 2 (by decide) (by decide)]
    exact byte_field 2 _ (by decide)
  case tBit =>
    rw [← h₂ 26 1 (by decide) (by decide)]
    exact bit_eq_one _
  case cBit =>
    rw [← h₂ 27 1 (by decide) (by decide)]
    exact bit_eq_one _
  case pType =>
    rw [← h₂ 28 4 (by decide) (by decide)]
    exact byte_field 4 _ (by decide)
  case streamID => exact hw 12 (by decide)
  case timeInteger => exact hw 16 (by decide)
  case timeFraction =>
    rw [← hw 20 (by decide), ← hw 24 (by decide)]
    exact timeFraction_toNat _

theorem init_valid_iff : (p.init m data 0x2000).valid = true ↔
    (V49Header.read m data).frameSize = 0x800 ∧ (V49Header.read m data).vrlp = 0x56524C50 ∧
      (V49Header.read m data).rr = 0 ∧ (V49Header.read m data).C = 0 ∧
      (V49Header.read m data).T = 0 ∧
      ((V49Header.read m data).pktType = 1 ∨ (V49Header.read m data).pktType = 3) ∧
      m.loadWord (data + 8188) = 0x56454E44 := by
  rw [← init_trailer p m data]
  exact validate_valid _

theorem field_eq (k w v : Nat) : BitVec.ofNat k w = BitVec.ofNat k v ↔ w % 2 ^ k = v % 2 ^ k := by
  rw [← BitVec.toNat_inj, BitVec.toNat_ofNat, BitVec.toNat_ofNat]

theorem flags_iff : ((V49Header.read m data).rr = 0 ∧ (V49Header.read m data).C = 0 ∧
      (V49Header.read m data).T = 0 ∧
      ((V49Header.read m data).pktType = 1 ∨ (V49Header.read m data).pktType = 3)) ↔
    ∃ b, (m.load data 0x2000)[11]? = some b ∧ b.toNat % 16 = 0 ∧
      (b.toNat / 16 = 1 ∨ b.toNat / 16 = 3) := by
  have hb : (m.load data 0x2000)[11]? = some (m (data + 11)) := Mem.getElem?_load ..
  have hlt := (m (data + 11)).toNat_lt
  have hfield (off width : Nat) (h : off + width ≤ 8) :
      (m.loadWord (data + 8)).toNat / 2 ^ (24 + off) % 2 ^ width =
        (m (data + 11)).toNat / 2 ^ off % 2 ^ width := by
    have hpos : 8 * 8 + (24 + off) = 8 * 11 + off := by omega
    rw [word_bits m data 8 (24 + off) width (by decide) (by omega), hpos, bits_byte hb h]
  have hrr : (V49Header.read m data).rr = 0 ↔ (m (data + 11)).toNat / 2 ^ 0 % 2 ^ 2 = 0 := by
    rw [← hfield 0 2 (by decide)]
    exact field_eq 2 _ 0
  have hT : (V49Header.read m data).T = 0 ↔ (m (data + 11)).toNat / 2 ^ 2 % 2 ^ 1 = 0 := by
    rw [← hfield 2 1 (by decide)]
    exact field_eq 1 _ 0
  have hC : (V49Header.read m data).C = 0 ↔ (m (data + 11)).toNat / 2 ^ 3 % 2 ^ 1 = 0 := by
    rw [← hfield 3 1 (by decide)]
    exact field_eq 1 _ 0
  have htype (v : Nat) (hv : v % 2 ^ 4 = v) : (V49Header.read m data).pktType = BitVec.ofNat 4 v ↔
      (m (data + 11)).toNat / 2 ^ 4 % 2 ^ 4 = v := by
    have hval := field_eq 4 ((m.loadWord (data + 8)).toNat / 2 ^ 28) v
    rw [hfield 4 4 (by decide), hv] at hval
    exact hval
  rw [hrr, hC, hT, hb]
  constructor
  · intro h
    obtain ⟨hr, hc, ht, hp⟩ := h
    refine ⟨_, rfl, ?_, ?_⟩
    · omega
    · rw [show (1 : BitVec 4) = BitVec.ofNat 4 1 from rfl, htype 1 rfl,
        show (3 : BitVec 4) = BitVec.ofNat 4 3 from rfl, htype 3 rfl] at hp
      omega
  · intro h
    obtain ⟨b, he, hlow, hhigh⟩ := h
    cases he
    refine ⟨by omega, by omega, by omega, ?_⟩
    rw [show (1 : BitVec 4) = BitVec.ofNat 4 1 from rfl, htype 1 rfl,
      show (3 : BitVec 4) = BitVec.ofNat 4 3 from rfl, htype 3 rfl]
    omega

theorem word_bytes (k : Nat) (hk : k + 4 ≤ 0x2000) :
    ofLE (((m.load data 0x2000).drop k).take 4) = (m.loadWord (data + k)).toNat := by
  have hdrop : k ≤ 0x2000 := by omega
  have htake : 4 ≤ 0x2000 - k := by omega
  rw [Mem.drop_load m data hdrop, Mem.take_load m _ htake, Mem.toNat_loadWord]

theorem init_valid_grammar :
    (p.init m data 0x2000).valid = true ↔ Grammar (m.load data 0x2000) := by
  have hvrlp : (V49Header.read m data).vrlp = 0x56524C50 ↔
      ofLE ((m.load data 0x2000).take 4) = 0x56524C50 := by
    have hbytes := word_bytes m data 0 (by decide)
    rw [List.drop_zero, Addr.add_zero] at hbytes
    rw [hbytes]
    exact UInt32.toNat_inj.symm
  have hsize : (V49Header.read m data).frameSize = 0x800 ↔
      ofLE (((m.load data 0x2000).drop 4).take 4) % 2 ^ 20 = 0x800 := by
    rw [word_bytes m data 4 (by decide)]
    exact field_eq 20 _ 0x800
  have hvend : m.loadWord (data + 8188) = 0x56454E44 ↔
      ofLE (((m.load data 0x2000).drop 8188).take 4) = 0x56454E44 := by
    rw [word_bytes m data 8188 (by decide)]
    exact UInt32.toNat_inj.symm
  have hflags := flags_iff m data
  rw [init_valid_iff, hsize, hvrlp, hvend]
  constructor
  · intro h
    obtain ⟨hs, hv, hr, hc, ht, hp, he⟩ := h
    exact ⟨hv, hs, hflags.1 ⟨hr, hc, ht, hp⟩, he⟩
  · intro h
    obtain ⟨hr, hc, ht, hp⟩ := hflags.2 h.flags
    exact ⟨h.frameSize, h.vrlp, hr, hc, ht, hp, h.vend⟩

theorem init_copy (ha : Apart data 0x2000 dest 0x2000) :
    ((p.init m data 0x2000).copy m dest).load dest 0x2000 = m.load data 0x2000 := by
  have hsmp : Apart (data + 28) 8160 dest 0x2000 := by
    unfold Apart at *
    simp only [Addr.add_obj, Addr.add_off]
    omega
  rw [copy_bytes _ m dest (init_samples p m data) (init_samplesLen p m data) hsmp,
    init_header_eq, V49Header.toBytes_read, init_trailer, Mem.toNat_loadWord]
  have htrl := toLE_ofLE (m.load (data + 8188) 4)
  rw [Mem.length_load] at htrl
  rw [htrl, load_packet_split]
  rfl

end

/-- What the encoders write is in the grammar. -/
theorem grammar_packetBytes (hp : payload.length = 8160) :
    Grammar (packetBytes (txHeader dn stream fc pc) payload) := by
  obtain ⟨m, data, hload⟩ := Mem.exists_load 0 (packetBytes (txHeader dn stream fc pc) payload)
  rw [length_packetBytes _ hp] at hload
  have hvalid := init_valid new m hp hload
  rw [init_valid_grammar, hload] at hvalid
  exact hvalid

/-- The decoder accepts its grammar and loses nothing. -/
theorem decoder_exact (p : V49Packet) (m : Mem UInt8) (data dest : Addr)
    (ha : Apart data 0x2000 dest 0x2000) :
    ((p.init m data 0x2000).isValid = true ↔ Grammar (m.load data 0x2000)) ∧
      Slices (p.init m data 0x2000) (m.load data 0x2000) ∧
      (p.init m data 0x2000).samples = some (data + 28) ∧
      (p.init m data 0x2000).samplesLen = 2040 ∧
      ((p.init m data 0x2000).copy m dest).load dest 0x2000 = m.load data 0x2000 :=
  ⟨init_valid_grammar p m data, init_slices p m data, init_samples p m data,
    init_samplesLen p m data, init_copy p m data ha⟩

theorem decoder_exact_framed :
    let m := (new.attachFill (fun _ => 7) 3 0 ⟨1, 0⟩ ⟨0, 0⟩ 5 2).1
    Grammar (m.load ⟨1, 0⟩ 0x2000) ∧
      ((new.init m ⟨1, 0⟩ 0x2000).copy m ⟨2, 0⟩).load ⟨2, 0⟩ 0x2000 = m.load ⟨1, 0⟩ 0x2000 := by
  have hread (m : Mem UInt8) (hm : m.load ⟨1, 0⟩ 0x2000 =
      packetBytes (txHeader 3 0 5 2) (Mem.load (fun _ => 7) ⟨0, 0⟩ 8160)) :
      Grammar (m.load ⟨1, 0⟩ 0x2000) ∧
        ((new.init m ⟨1, 0⟩ 0x2000).copy m ⟨2, 0⟩).load ⟨2, 0⟩ 0x2000 = m.load ⟨1, 0⟩ 0x2000 := by
    have h := decoder_exact new m ⟨1, 0⟩ ⟨2, 0⟩ (.inl (by decide))
    exact ⟨h.1.1 (init_valid new m (Mem.length_load ..) hm), h.2.2.2.2⟩
  exact hread _ (attachFill_load ..)

end V49Packet
end Avs4000
