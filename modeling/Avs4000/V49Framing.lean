import Avs4000.Lib.Frames
import Avs4000.V49Agreement

namespace Avs4000
namespace V49Packet
open Memory Frames
set_option autoImplicit true

/-- The bytes are those of one packet that the decoder finds valid. -/
def IsPacket (p : List UInt8) : Prop :=
  p.length = 0x2000 ∧
    ∀ (q : V49Packet) (m : Mem UInt8) (a : Addr), m.load a 0x2000 = p →
      (q.init m a 0x2000).valid = true

/-- What the decoder checks in the header, byte by byte. -/
def headByteOk : Nat → UInt8 → Prop
  | 0, b => b = 0x50
  | 1, b => b = 0x4C
  | 2, b => b = 0x52
  | 3, b => b = 0x56
  | 4, b => b = 0x00
  | 5, b => b = 0x08
  | 6, b => b.toNat % 16 = 0
  | 11, b => b = 0x10
  | _, _ => True

/-- A byte that may stand at offset `j` of a transmitted packet. -/
def ByteOk (j : Nat) (b : UInt8) : Prop :=
  (j < 28 → headByteOk j b) ∧ (8188 ≤ j → vend[j - 8188]? = some b)

theorem byteOk_payload (h : 28 ≤ j) (h' : j < 8188) (b : UInt8) : ByteOk j b :=
  ⟨fun hj => absurd hj (Nat.not_lt_of_le h), fun hj => absurd h' (Nat.not_lt_of_le hj)⟩

/-- The byte at offset `4 * k + i` of a header is byte `i` of its word `k`. -/
theorem toBytes_byte {h : V49Header} (hb : h.toBytes[4 * k + i]? = some b) (hi : i < 4)
    (hw : h.toWords[k]? = some w) : b.toNat = w.toNat / 256 ^ i % 256 := by
  have he := Option.some.inj (hb.symm.trans (getElem?_ofWords hw hi))
  rw [he, UInt8.toNat_ofNat']

theorem txHeader_byteOk (dn : UInt8) (stream : UInt16) (fc : UInt16) (pc : UInt8)
    (h : (txHeader dn stream fc pc).toBytes[j]? = some b) : headByteOk j b := by
  have hf := (txHeader dn stream fc pc).frameCount.isLt
  have hp := (txHeader dn stream fc pc).pktCount.isLt
  generalize hfc : (txHeader dn stream fc pc).frameCount.toNat = f at hf
  generalize hpc : (txHeader dn stream fc pc).pktCount.toNat = p at hp
  have hw₀ : (txHeader dn stream fc pc).toWords[0]? = some 0x56524C50 := rfl
  have hw₁ : (txHeader dn stream fc pc).toWords[1]? = some (.ofNat (0x800 + 2 ^ 20 * f)) := by
    rw [← hfc]
    rfl
  have hw₂ : (txHeader dn stream fc pc).toWords[2]? = some (.ofNat (0x7fd + 2 ^ 16 * p +
      2 ^ 20 * 1 + 2 ^ 22 * 1 + 2 ^ 24 * 0 + 2 ^ 26 * 0 + 2 ^ 27 * 0 + 2 ^ 28 * 1)) := by
    rw [← hpc]
    rfl
  have hl₁ : 0x800 + 2 ^ 20 * f < 2 ^ 32 := by omega
  have hl₂ : 0x7fd + 2 ^ 16 * p + 2 ^ 20 * 1 + 2 ^ 22 * 1 + 2 ^ 24 * 0 + 2 ^ 26 * 0 + 2 ^ 27 * 0 +
    2 ^ 28 * 1 < 2 ^ 32 := by omega
  have hn₁ := UInt32.toNat_ofNat_of_lt' hl₁
  have hn₂ := UInt32.toNat_ofNat_of_lt' hl₂
  unfold headByteOk
  split
  · exact UInt8.toNat_inj.1 (toBytes_byte (k := 0) (i := 0) h (by decide) hw₀)
  · exact UInt8.toNat_inj.1 (toBytes_byte (k := 0) (i := 1) h (by decide) hw₀)
  · exact UInt8.toNat_inj.1 (toBytes_byte (k := 0) (i := 2) h (by decide) hw₀)
  · exact UInt8.toNat_inj.1 (toBytes_byte (k := 0) (i := 3) h (by decide) hw₀)
  · have hb := toBytes_byte (k := 1) (i := 0) h (by decide) hw₁
    rw [hn₁] at hb
    apply UInt8.toNat_inj.1
    rw [hb]
    change _ = 0
    omega
  · have hb := toBytes_byte (k := 1) (i := 1) h (by decide) hw₁
    rw [hn₁] at hb
    apply UInt8.toNat_inj.1
    rw [hb]
    change _ = 8
    omega
  · have hb := toBytes_byte (k := 1) (i := 2) h (by decide) hw₁
    rw [hn₁] at hb
    omega
  · have hb := toBytes_byte (k := 2) (i := 3) h (by decide) hw₂
    rw [hn₂] at hb
    apply UInt8.toNat_inj.1
    rw [hb]
    change _ = 16
    omega
  · trivial

theorem packetBytes_byteOk (hp : payload.length = 8160)
    (h : (packetBytes (txHeader dn stream fc pc) payload)[j]? = some b) : ByteOk j b := by
  have hl := (txHeader dn stream fc pc).length_toBytes
  rw [packetBytes] at h
  constructor
  · intro hj
    rw [List.append_assoc, List.getElem?_append_left (hl.symm ▸ hj)] at h
    exact txHeader_byteOk dn stream fc pc h
  · intro hj
    have hlen : ((txHeader dn stream fc pc).toBytes ++ payload).length = 8188 := by
      rw [List.length_append, hl, hp]
      rfl
    rw [List.getElem?_append_right (hlen.symm ▸ hj), hlen] at h
    exact h

theorem attach_first_byte (p : V49Packet) (m : Mem UInt8) (dn : UInt8) (stream : UInt16)
    (buf : Addr) (fc : UInt16) (pc : UInt8) :
    (p.attach m dn stream buf 0x2000 fc pc).2.1 buf = 0x50 := by
  have hb := Mem.getElem?_load (p.attach m dn stream buf 0x2000 fc pc).2.1 buf 0x2000 0
  rw [attach_load, if_pos (by decide), Addr.add_zero] at hb
  exact (packetBytes_byteOk (Mem.length_load ..) hb).1 (by decide)

theorem loadWord_toNat (m : Mem UInt8) (a : Addr) :
    (m.loadWord a).toNat = (m a).toNat + 256 * ((m (a + 1)).toNat + 256 * ((m (a + 2)).toNat +
      256 * (m (a + 3)).toNat)) := by
  have h₀ := (m a).toNat_lt
  have h₁ := (m (a + 1)).toNat_lt
  have h₂ := (m (a + 2)).toNat_lt
  have h₃ := (m (a + 3)).toNat_lt
  have hload : m.load a 4 = [m a, m (a + 1), m (a + 2), m (a + 3)] := rfl
  have hlt : (m a).toNat + 256 * ((m (a + 1)).toNat + 256 * ((m (a + 2)).toNat +
      256 * (m (a + 3)).toNat)) < 2 ^ 32 := by omega
  rw [Mem.loadWord, hload, ofLE_cons, ofLE_cons, ofLE_cons, ofLE_cons, ofLE_nil, Nat.mul_zero,
    Nat.add_zero]
  exact UInt32.toNat_ofNat_of_lt' hlt

theorem loadWord_of_bytes {m : Mem UInt8} {w : UInt32} (h₀ : m a = b₀) (h₁ : m (a + 1) = b₁)
    (h₂ : m (a + 2) = b₂) (h₃ : m (a + 3) = b₃)
    (hw : w.toNat = b₀.toNat + 256 * (b₁.toNat + 256 * (b₂.toNat + 256 * b₃.toNat))) :
    m.loadWord a = w := by
  apply UInt32.toNat_inj.1
  rw [loadWord_toNat, h₀, h₁, h₂, h₃, hw]

/-- The decoder accepts a buffer all of whose bytes may stand where they do. -/
theorem init_valid_of_byteOk (q : V49Packet) (m : Mem UInt8) (a : Addr)
    (h : ∀ j < 0x2000, ByteOk j (m (a + j))) : (q.init m a 0x2000).valid = true := by
  have hh (j : Nat) (hj : j < 28) : headByteOk j (m (a + j)) := (h j (by omega)).1 hj
  have hv (i : Nat) (hi : i < 4) : vend[i]? = some (m (a + (8188 + i))) := by
    have hb := (h (8188 + i) (by omega)).2 (Nat.le_add_right ..)
    rwa [Nat.add_sub_cancel_left] at hb
  have hvend : vend = [0x44, 0x4E, 0x45, 0x56] := by decide
  rw [hvend] at hv
  have hw₁ := loadWord_toNat m (a + 4)
  have hw₂ := loadWord_toNat m (a + 8)
  have h₄ : m (a + 4) = 0 := hh 4 (by decide)
  have h₅ : m (a + 4 + 1) = 8 := hh 5 (by decide)
  have h₆ : (m (a + 4 + 2)).toNat % 16 = 0 := hh 6 (by decide)
  have h₁₁ : m (a + 8 + 3) = 0x10 := hh 11 (by decide)
  have hb₈ := (m (a + 8)).toNat_lt
  have hb₉ := (m (a + 8 + 1)).toNat_lt
  have hb₁₀ := (m (a + 8 + 2)).toNat_lt
  rw [h₄, h₅, show (0 : UInt8).toNat = 0 from rfl, show (8 : UInt8).toNat = 8 from rfl] at hw₁
  rw [h₁₁, show (0x10 : UInt8).toNat = 16 from rfl] at hw₂
  refine (validate_valid _).2 ?_
  change (V49Header.read m a).frameSize = _ ∧ (V49Header.read m a).vrlp = _ ∧
    (V49Header.read m a).rr = _ ∧ (V49Header.read m a).C = _ ∧ (V49Header.read m a).T = _ ∧
    ((V49Header.read m a).pktType = _ ∨ _) ∧
    m.loadWord (a + V49Header.size + 4 * samplesFor 0x2000) = _
  refine ⟨?_, ?_, ?_, ?_, ?_, .inl ?_, ?_⟩
  · apply BitVec.eq_of_toNat_eq
    change (m.loadWord (a + 4)).toNat % 2 ^ 20 = 0x800
    rw [hw₁]
    omega
  · exact loadWord_of_bytes (hh 0 (by decide)) (hh 1 (by decide)) (hh 2 (by decide))
      (hh 3 (by decide)) rfl
  · apply BitVec.eq_of_toNat_eq
    change (m.loadWord (a + 8)).toNat / 2 ^ 24 % 2 ^ 2 = 0
    rw [hw₂]
    omega
  · apply BitVec.eq_of_toNat_eq
    change (m.loadWord (a + 8)).toNat / 2 ^ 27 % 2 ^ 1 = 0
    rw [hw₂]
    omega
  · apply BitVec.eq_of_toNat_eq
    change (m.loadWord (a + 8)).toNat / 2 ^ 26 % 2 ^ 1 = 0
    rw [hw₂]
    omega
  · apply BitVec.eq_of_toNat_eq
    change (m.loadWord (a + 8)).toNat / 2 ^ 28 % 2 ^ 4 = 1
    rw [hw₂]
    omega
  · rw [samplesFor_packet]
    exact loadWord_of_bytes (Option.some.inj (hv 0 (by decide))).symm
      (Option.some.inj (hv 1 (by decide))).symm (Option.some.inj (hv 2 (by decide))).symm
      (Option.some.inj (hv 3 (by decide))).symm rfl

theorem isPacket_of_byteOk (hl : p.length = 0x2000)
    (h : ∀ (j : Nat) (b : UInt8), p[j]? = some b → ByteOk j b) : IsPacket p := by
  refine ⟨hl, fun q m a hm => init_valid_of_byteOk q m a fun j hj => h j _ ?_⟩
  rw [← hm, Mem.getElem?_load, if_pos hj]

theorem IsPacket.second_byte (h : IsPacket p) : p[1]? = some 0x4C := by
  obtain ⟨hl, hv⟩ := h
  generalize hm : Mem.store (fun _ => 0) ⟨0, 0⟩ p = m
  have hload : m.load ⟨0, 0⟩ 0x2000 = p := by
    rw [← hm, ← hl]
    exact Mem.load_store ..
  have hvrlp : m.loadWord ⟨0, 0⟩ = 0x56524C50 := ((validate_valid _).1 (hv new m _ hload)).2.1
  have hb := Mem.getElem?_load m ⟨0, 0⟩ 0x2000 1
  rw [hload, if_pos (by decide)] at hb
  have hn := congrArg UInt32.toNat hvrlp
  rw [loadWord_toNat, show (0x56524C50 : UInt32).toNat = 0x56524C50 from rfl] at hn
  have h₀ := (m ⟨0, 0⟩).toNat_lt
  have h₁ := (m ((⟨0, 0⟩ : Addr) + 1)).toNat_lt
  have hbyte : (m ((⟨0, 0⟩ : Addr) + 1)).toNat = 0x4C := by omega
  rw [hb, UInt8.toNat_inj.1 (hbyte.trans (show 0x4C = (0x4C : UInt8).toNat from rfl))]

theorem exists_byteOk (h : j < 0x2000) : ∃ b, ByteOk j b := by
  have hz : (List.replicate 8160 (0 : UInt8)).length = 8160 := List.length_replicate
  have hp := length_packetBytes (txHeader 0 0 0 0) hz
  exact ⟨_, packetBytes_byteOk hz (List.getElem?_eq_getElem (hp.symm ▸ h))⟩

/-- Bytes each of which may stand where it does can be completed to whole packets. -/
theorem exists_packets {ws : List UInt8}
    (h : ∀ (i : Nat) (b : UInt8), ws[i]? = some b → ByteOk (i % 0x2000) b) :
    ∃ ps : List (List UInt8), (∀ p ∈ ps, IsPacket p) ∧ ws <+: ps.flatten := by
  have hfill (i : Nat) : ∃ b, ByteOk (i % 0x2000) b := exists_byteOk (Nat.mod_lt i (by decide))
  choose f hf using hfill
  let n := ws.length / 0x2000 + 1
  let full := (List.range (0x2000 * n)).map fun i => ws[i]?.getD (f i)
  have hlen : full.length = 0x2000 * n := by
    rw [List.length_map, List.length_range]
  have hok (i : Nat) (b : UInt8) (hb : full[i]? = some b) : ByteOk (i % 0x2000) b := by
    obtain ⟨hi, rfl⟩ := List.getElem?_eq_some_iff.1 hb
    rw [List.getElem_map, List.getElem_range]
    cases hw : ws[i]? with
    | none => exact hf i
    | some w => exact h i w hw
  refine ⟨(List.range n).map (frame 0x2000 full), ?_, ?_⟩
  · intro p hp
    obtain ⟨k, hk, rfl⟩ := List.mem_map.1 hp
    have hle : 0x2000 * (k + 1) ≤ full.length :=
      hlen ▸ Nat.mul_le_mul_left _ (List.mem_range.1 hk)
    have hpl := length_frame hle
    refine isPacket_of_byteOk hpl fun j b hb => ?_
    have hj : j < 0x2000 := hpl ▸ (List.getElem?_eq_some_iff.1 hb).1
    rw [getElem?_frame hj] at hb
    have hb := hok _ b hb
    rwa [Nat.mul_add_mod, Nat.mod_eq_of_lt hj] at hb
  · have hflat : (List.range n).flatMap (frame 0x2000 full) = full.take (0x2000 * n) :=
      flatMap_frame (Nat.le_of_eq hlen.symm)
    rw [List.flatMap_def, ← hlen, List.take_length] at hflat
    rw [hflat]
    apply List.prefix_iff_getElem?.2
    intro i hi
    have hin : i < 0x2000 * n := by omega
    rw [List.getElem?_map, List.getElem?_range hin, Option.map_some, List.getElem?_eq_getElem hi]
    rfl

end V49Packet
end Avs4000
