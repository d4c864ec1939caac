import Avs4000.V49Packet

namespace Avs4000
namespace V49Packet
open Memory
set_option autoImplicit true

def vend : List UInt8 := toLE 4 0x56454E44

/-- The bytes of an 8 KB packet. -/
def packetBytes (h : V49Header) (payload : List UInt8) : List UInt8 := h.toBytes ++ payload ++ vend

@[simp] theorem length_vend : vend.length = 4 := length_toLE ..

theorem length_packetBytes (h : V49Header) (hp : payload.length = 8160) :
    (packetBytes h payload).length = 0x2000 := by
  rw [packetBytes, List.length_append, List.length_append, V49Header.length_toBytes, hp,
    length_vend]
  rfl

theorem samplesFor_packet : samplesFor 0x2000 = 2040 := by decide

theorem load_packet_split (m : Mem UInt8) (a : Addr) :
    m.load a 0x2000 = m.load a 28 ++ m.load (a + 28) 8160 ++ m.load (a + 8188) 4 := by
  rw [show 0x2000 = 28 + 8160 + 4 from rfl, Mem.load_add, Mem.load_add]

theorem load_packet_eq (m : Mem UInt8) (hp : payload.length = 8160) :
    m.load a 0x2000 = packetBytes h payload ↔
      m.load a 28 = h.toBytes ∧ m.load (a + 28) 8160 = payload ∧ m.load (a + 8188) 4 = vend := by
  rw [load_packet_split, packetBytes]
  constructor
  · intro he
    obtain ⟨he, hv⟩ := List.append_inj he (by
      simp only [List.length_append, Mem.length_load, V49Header.length_toBytes, hp]
      rfl)
    obtain ⟨hh, hp⟩ := List.append_inj he ((Mem.length_load ..).trans h.length_toBytes.symm)
    exact ⟨hh, hp, hv⟩
  · rintro ⟨hh, hp, hv⟩
    rw [hh, hp, hv]

section
variable (p : V49Packet) (m : Mem UInt8) (dn : UInt8) (stream : UInt16) (buf : Addr)
  (fc : UInt16) (pc : UInt8)

theorem attach_samplesLen : (p.attach m dn stream buf 0x2000 fc pc).1.samplesLen = 2040 :=
  samplesFor_packet

theorem attach_mem : (p.attach m dn stream buf 0x2000 fc pc).2.1 =
    (m.store buf (txHeader dn stream fc pc).toBytes).store (buf + 8188) vend := by
  change Mem.store _ (buf + (V49Header.size + 4 * samplesFor 0x2000)) _ = _
  rw [samplesFor_packet]
  rfl

theorem attach_load : (p.attach m dn stream buf 0x2000 fc pc).2.1.load buf 0x2000 =
    packetBytes (txHeader dn stream fc pc) (m.load (buf + 28) 8160) := by
  rw [attach_mem]
  have hlen := (txHeader dn stream fc pc).length_toBytes
  refine (load_packet_eq _ (Mem.length_load ..)).2 ⟨?_, ?_, ?_⟩
  · rw [Mem.load_store_apart (.inr (.inl ?_))]
    · exact (congrArg _ hlen.symm).trans (Mem.load_store ..)
    · exact Nat.add_le_add_left (by decide) _
  · rw [Mem.load_store_apart (.inr (.inl (Nat.le_refl _))), Mem.load_store_apart (.inr (.inr ?_))]
    rw [hlen]
    exact Nat.le_refl _
  · exact Mem.load_store _ _ vend

end

/-- Storing bytes into the payload of a framed buffer replaces just the ones it covers. -/
theorem store_payload_at (m : Mem UInt8) (h : m.load buf 0x2000 = packetBytes hd old)
    (ho : old.length = 8160) (hb : k + bs.length ≤ 8160) :
    (m.store (buf + 28 + k) bs).load buf 0x2000 =
      packetBytes hd (old.take k ++ bs ++ old.drop (k + bs.length)) := by
  obtain ⟨hh, hp, hv⟩ := (load_packet_eq m ho).1 h
  obtain ⟨n, hn⟩ := Nat.exists_eq_add_of_le hb
  have hlen : (old.take k ++ bs ++ old.drop (k + bs.length)).length = 8160 := by
    simp only [List.length_append, List.length_take, List.length_drop, ho]
    omega
  refine (load_packet_eq _ hlen).2 ⟨?_, ?_, ?_⟩
  · rw [Mem.load_store_apart (.inr (.inl ?_)), hh]
    simp only [Addr.add_off]
    omega
  · have hd : 8160 - (k + bs.length) = n := Nat.sub_eq_of_eq_add' hn
    have hk : k ≤ 8160 := by omega
    rw [hn, Mem.load_store_within, ← hp, Mem.take_load _ _ hk, Mem.drop_load _ _ hb, hd]
  · rw [Mem.load_store_apart (.inr (.inr ?_)), hv]
    simp only [Addr.add_off]
    omega

theorem store_payload (m : Mem UInt8) (h : m.load buf 0x2000 = packetBytes hd old)
    (ho : old.length = 8160) (hb : bs.length = 8160) :
    (m.store (buf + 28) bs).load buf 0x2000 = packetBytes hd bs := by
  have hs := store_payload_at (k := 0) m h ho (by rw [Nat.zero_add, hb])
  rw [Nat.zero_add, hb, ← ho, List.drop_length, List.take_zero, List.append_nil] at hs
  exact hs

theorem copy_bytes (p : V49Packet) (m : Mem UInt8) (dest : Addr) (hs : p.samples = some smp)
    (hl : p.samplesLen = 2040) (ha : Apart smp 8160 dest 0x2000) :
    (p.copy m dest).load dest 0x2000 =
      p.header.toBytes ++ m.load smp 8160 ++ toLE 4 p.trailer.toNat := by
  have hlen := p.header.length_toBytes
  have htrl := length_toLE 4 p.trailer.toNat
  have hsmp : (m.store dest p.header.toBytes).load smp 8160 = m.load smp 8160 :=
    Mem.load_store_apart (ha.mono (Nat.le_refl _) (by rw [hlen]; decide))
  have hmem : p.copy m dest =
      ((m.store dest p.header.toBytes).store (dest + 28) (m.load smp 8160)).store (dest + 8188)
        (toLE 4 p.trailer.toNat) := by
    rw [← hsmp]
    simp only [copy, hs, hl]
    rfl
  rw [hmem, load_packet_split]
  refine congrArg₂ _ (congrArg₂ _ ?_ ?_) ?_
  · rw [Mem.load_store_apart (.inr (.inl ?_)), Mem.load_store_apart (.inr (.inl (Nat.le_refl _)))]
    · exact (congrArg _ hlen.symm).trans (Mem.load_store ..)
    · exact Nat.add_le_add_left (by decide) _
  · rw [Mem.load_store_apart (.inr (.inl (Nat.le_refl _)))]
    exact (congrArg _ (Mem.length_load ..).symm).trans (Mem.load_store ..)
  · exact (congrArg _ htrl.symm).trans (Mem.load_store ..)

theorem copy_load (p : V49Packet) (m : Mem UInt8) (dest : Addr) (hs : p.samples = some smp)
    (hl : p.samplesLen = 2040) (ht : p.trailer = 0x56454E44) (ha : Apart smp 8160 dest 0x2000) :
    (p.copy m dest).load dest 0x2000 = packetBytes p.header (m.load smp 8160) := by
  rw [copy_bytes p m dest hs hl ha, ht]
  rfl

theorem init_header (p : V49Packet) (m : Mem UInt8) (hp : payload.length = 8160)
    (h : m.load data 0x2000 = packetBytes hd payload) :
    (p.init m data 0x2000).header = hd ∧ (p.init m data 0x2000).trailer = 0x56454E44 := by
  obtain ⟨hh, _, hv⟩ := (load_packet_eq m hp).1 h
  refine ⟨V49Header.read_eq m hh, ?_⟩
  change m.loadWord (data + V49Header.size + 4 * samplesFor 0x2000) = _
  rw [samplesFor_packet, Mem.loadWord, Addr.add_add]
  change UInt32.ofNat (ofLE (m.load (data + 8188) 4)) = _
  rw [hv]
  decide

theorem validate_valid (p : V49Packet) : p.validate.valid = true ↔
    p.header.frameSize = 0x800 ∧ p.header.vrlp = 0x56524C50 ∧ p.header.rr = 0 ∧ p.header.C = 0 ∧
      p.header.T = 0 ∧ (p.header.pktType = 1 ∨ p.header.pktType = 3) ∧
      p.trailer = 0x56454E44 := by
  have hif {c : Prop} [Decidable c] {b : Bool} :
      (if c then false else b) = true ↔ ¬c ∧ b = true := by
    by_cases hc : c <;> simp only [hc, if_true, if_false, Bool.false_eq_true, not_true,
      not_false_iff, true_and, false_and]
  have hbit (b : BitVec 1) : ¬b = 1 ↔ b = 0 := by
    revert b
    decide
  simp only [validate, hif, ne_eq, not_not, hbit, and_true]
  constructor
  · rintro ⟨h₁, h₂, _, h₃, h₄, h₅, h₆, h₇⟩
    exact ⟨h₁, h₂, h₃, h₄, h₅, h₆, h₇⟩
  · rintro ⟨h₁, h₂, h₃, h₄, h₅, h₆, h₇⟩
    refine ⟨h₁, h₂, ?_, h₃, h₄, h₅, h₆, h₇⟩
    rw [h₁]
    decide

theorem init_valid (p : V49Packet) (m : Mem UInt8) (hp : payload.length = 8160)
    (h : m.load data 0x2000 = packetBytes (txHeader dn stream fc pc) payload) :
    (p.init m data 0x2000).valid = true := by
  obtain ⟨hh, ht⟩ := init_header p m hp h
  refine (validate_valid _).2 ?_
  change (p.init m data 0x2000).header.frameSize = _ ∧ (p.init m data 0x2000).header.vrlp = _ ∧
    (p.init m data 0x2000).header.rr = _ ∧ (p.init m data 0x2000).header.C = _ ∧
    (p.init m data 0x2000).header.T = _ ∧ ((p.init m data 0x2000).header.pktType = _ ∨ _) ∧
    (p.init m data 0x2000).trailer = _
  rw [hh, ht]
  exact ⟨rfl, rfl, rfl, rfl, rfl, .inl rfl, rfl⟩

theorem txHeader_streamId (dn : UInt8) (stream : UInt16) (fc : UInt16) (pc : UInt8) :
    (txHeader dn stream fc pc).streamId.toNat = dn.toNat * 65536 + stream.toNat := by
  have hd := dn.toNat_lt
  have hs := stream.toNat_lt
  change (dn.toUInt32 <<< 16 ||| stream.toUInt32).toNat = _
  rw [UInt32.toNat_or, UInt32.toNat_shiftLeft, UInt8.toNat_toUInt32, UInt16.toNat_toUInt32]
  change dn.toNat <<< 16 % 2 ^ 32 ||| stream.toNat = _
  rw [Nat.shiftLeft_eq, Nat.mod_eq_of_lt (by omega), ← Nat.shiftLeft_eq,
    ← Nat.shiftLeft_add_eq_or_of_lt (by omega), Nat.shiftLeft_eq]

theorem txHeader_counts (dn : UInt8) (stream : UInt16) (fc : UInt16) (pc : UInt8) :
    (txHeader dn stream fc pc).frameCount.toNat = fc.toNat % 4096 ∧
      (txHeader dn stream fc pc).pktCount.toNat = pc.toNat % 16 := by
  change (BitVec.ofNat 12 fc.toNat).toNat = _ ∧ (BitVec.ofNat 4 (pc.toNat % 0x10)).toNat = _
  rw [BitVec.toNat_ofNat, BitVec.toNat_ofNat]
  omega

/-- `Attach` and then filling `SampleBuffer()` with the samples at `smp`. -/
def attachFill (p : V49Packet) (m : Mem UInt8) (dn : UInt8) (stream : UInt16) (buf smp : Addr)
    (fc : UInt16) (pc : UInt8) : Mem UInt8 × UInt16 × UInt8 :=
  let (p, m', counts) := p.attach m dn stream buf 0x2000 fc pc
  match p.sampleBuffer with
  | some sbuf => (m'.store sbuf (m.load smp (4 * p.samplesLen)), counts)
  | none => (m', counts)

/-- `Make` with the samples at `smp` and then `Copy`. -/
def makeCopy (p : V49Packet) (m : Mem UInt8) (dn : UInt8) (stream : UInt16) (dest smp : Addr)
    (fc : UInt16) (pc : UInt8) : Mem UInt8 × UInt16 × UInt8 :=
  let (p, counts) := p.make dn stream smp 2040 fc pc
  (p.copy m dest, counts)

theorem attachFill_load (p : V49Packet) (m : Mem UInt8) (dn : UInt8) (stream : UInt16)
    (buf smp : Addr) (fc : UInt16) (pc : UInt8) :
    (p.attachFill m dn stream buf smp fc pc).1.load buf 0x2000 =
      packetBytes (txHeader dn stream fc pc) (m.load smp 8160) := by
  have hl := attach_samplesLen p m dn stream buf fc pc
  have hm : (p.attachFill m dn stream buf smp fc pc).1 =
      (p.attach m dn stream buf 0x2000 fc pc).2.1.store (buf + 28) (m.load smp 8160) := by
    change Mem.store _ _ (m.load smp (4 * (p.attach m dn stream buf 0x2000 fc pc).1.samplesLen)) = _
    rw [hl]
    rfl
  rw [hm]
  exact store_payload _ (attach_load p m dn stream buf fc pc) (Mem.length_load ..)
    (Mem.length_load ..)

theorem makeCopy_load (p : V49Packet) (m : Mem UInt8) (ha : Apart smp 8160 dest 0x2000) :
    (p.makeCopy m dn stream dest smp fc pc).1.load dest 0x2000 =
      packetBytes (txHeader dn stream fc pc) (m.load smp 8160) :=
  copy_load _ m dest rfl rfl rfl ha

/-- The two encoders write the same packet and the decoder reads back what went in. -/
theorem encoders_decoder_agree (p q r : V49Packet) (m m' : Mem UInt8) (dn : UInt8)
    (stream : UInt16) (fc : UInt16) (pc : UInt8) (buf dest data smp : Addr)
    (ha : Apart smp 8160 dest 0x2000)
    (hd : m'.load data 0x2000 = (p.attachFill m dn stream buf smp fc pc).1.load buf 0x2000) :
    (p.attachFill m dn stream buf smp fc pc).1.load buf 0x2000 =
        (q.makeCopy m dn stream dest smp fc pc).1.load dest 0x2000 ∧
      (p.attachFill m dn stream buf smp fc pc).2 = (q.makeCopy m dn stream dest smp fc pc).2 ∧
      (p.attachFill m dn stream buf smp fc pc).2.1.toNat = (fc.toNat + 1) % 2 ^ 16 ∧
      (p.attachFill m dn stream buf smp fc pc).2.2.toNat = (pc.toNat + 1) % 2 ^ 8 ∧
      (r.init m' data 0x2000).valid = true ∧
      (r.init m' data 0x2000).samplesLen = 2040 ∧
      (∃ a, (r.init m' data 0x2000).samples = some a ∧ m'.loadWords a 2040 = m.loadWords smp 2040) ∧
      (r.init m' data 0x2000).header.streamId.toNat = dn.toNat * 65536 + stream.toNat ∧
      (r.init m' data 0x2000).header.frameCount.toNat = fc.toNat % 4096 ∧
      (r.init m' data 0x2000).header.pktCount.toNat = pc.toNat % 16 ∧
      (r.init m' data 0x2000).header.pktType = 1 ∧
      (r.init m' data 0x2000).header.timeInt = 0 ∧
      (r.init m' data 0x2000).timeFraction = 0 := by
  have hfill := attachFill_load p m dn stream buf smp fc pc
  have hbytes := hd.trans hfill
  have hlen := Mem.length_load m smp 8160
  obtain ⟨hh, _⟩ := init_header r m' hlen hbytes
  obtain ⟨hfc, hpc⟩ := txHeader_counts dn stream fc pc
  have hsmp := ((load_packet_eq m' hlen).1 hbytes).2.1
  refine ⟨hfill.trans (makeCopy_load q m ha).symm, rfl, UInt16.toNat_add .., UInt8.toNat_add ..,
    init_valid r m' hlen hbytes, samplesFor_packet, ⟨_, rfl, ?_⟩, ?_, ?_, ?_, ?_, ?_, ?_⟩
  · exact congrArg words hsmp
  · rw [hh, txHeader_streamId]
  · rw [hh, hfc]
  · rw [hh, hpc]
  · rw [hh]
    rfl
  · rw [hh]
    rfl
  · rw [timeFraction, hh]
    change (0 : UInt32).toUInt64 <<< 32 ||| (0 : UInt32).toUInt64 = 0
    decide

theorem encoders_decoder_agree_wrapped :
    let m := (new.attachFill (fun _ => 7) 3 0 ⟨1, 0⟩ ⟨0, 0⟩ 4097 255).1
    m.load ⟨1, 0⟩ 0x2000 =
        (new.makeCopy (fun _ => 7) 3 0 ⟨2, 0⟩ ⟨0, 0⟩ 4097 255).1.load ⟨2, 0⟩ 0x2000 ∧
      (new.init m ⟨1, 0⟩ 0x2000).valid = true := by
  have h := encoders_decoder_agree new new new (fun _ => 7) _ 3 0 4097 255 ⟨1, 0⟩ ⟨2, 0⟩ ⟨1, 0⟩
    ⟨0, 0⟩ (.inl (by decide)) rfl
  exact ⟨h.1, h.2.2.2.2.1⟩

end V49Packet
end Avs4000
