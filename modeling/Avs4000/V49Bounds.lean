import Avs4000.V49Agreement

namespace Avs4000
namespace V49Packet
open Memory
set_option autoImplicit true

/-- Where `Attach` puts the trailer of an attached packet. -/
def trailerAt (p : V49Packet) : Option Addr :=
  p.buffer.map (· + (V49Header.size + 4 * p.samplesLen))

/-- `Attach` writes inside the buffer it is given, and the samples stop short of its trailer. -/
structure AttachBounded (p : V49Packet) (dn : UInt8) (stream : UInt16) (buf : Addr) (len : Nat)
    (fc : UInt16) (pc : UInt8) : Prop where
  writes : Within (fun m => (p.attach m dn stream buf len fc pc).2.1) buf len
  trailer : ∀ m t, (p.attach m dn stream buf len fc pc).1.trailerAt = some t →
    (p.attach m dn stream buf len fc pc).2.1.load t 4 = vend
  samples : ∀ m a t, (p.attach m dn stream buf len fc pc).1.sampleBuffer = some a →
    (p.attach m dn stream buf len fc pc).1.trailerAt = some t →
    Apart a (4 * (p.attach m dn stream buf len fc pc).1.samplesLen) t 4

/-- `Copy` of a packet made of `count` samples writes inside an 8 KB buffer. -/
def CopyBounded (p : V49Packet) (dn : UInt8) (stream : UInt16) (smp : Addr) (count : Nat)
    (fc : UInt16) (pc : UInt8) (dest : Addr) : Prop :=
  Within (fun m => (p.make dn stream smp count fc pc).1.copy m dest) dest 0x2000

/-- The subtraction wraps below the size of header and trailer. -/
theorem samplesFor_small (h : len < 32) : 2 ^ 32 - 8 ≤ samplesFor len := by
  unfold samplesFor V49Header.size
  omega

theorem samplesFor_fits (h : 32 ≤ len) (hlen : len ≤ 0x2000) :
    28 + 4 * samplesFor len + 4 ≤ len := by
  unfold samplesFor V49Header.size
  omega

theorem vend_last : vend[3]? = some 0x56 := by decide

section
variable (p : V49Packet) (dn : UInt8) (stream : UInt16) (buf smp dest : Addr) (fc : UInt16)
  (pc : UInt8)

theorem attach_trailer (m : Mem UInt8) (len : Nat)
    (ht : (p.attach m dn stream buf len fc pc).1.trailerAt = some t) :
    (p.attach m dn stream buf len fc pc).2.1.load t 4 = vend := by
  cases ht
  exact Mem.load_store _ _ vend

theorem attach_samples (m : Mem UInt8) (len : Nat)
    (ha : (p.attach m dn stream buf len fc pc).1.sampleBuffer = some a)
    (ht : (p.attach m dn stream buf len fc pc).1.trailerAt = some t) :
    Apart a (4 * (p.attach m dn stream buf len fc pc).1.samplesLen) t 4 := by
  cases ha
  cases ht
  exact .inr (.inl (Nat.le_of_eq (Nat.add_assoc ..)))

theorem attach_within (h : 28 + 4 * samplesFor len + 4 ≤ len) :
    Within (fun m => (p.attach m dn stream buf len fc pc).2.1) buf len := by
  have hheader :
      Within (fun m => m.store (buf + 0) (txHeader dn stream fc pc).toBytes) buf len := by
    apply Within.store
    intro _
    rw [V49Header.length_toBytes]
    exact Nat.le_trans (by change 0 + 28 ≤ _; omega) h
  have htrailer : Within (fun m => m.store (buf + (28 + 4 * samplesFor len)) vend) buf len := by
    apply Within.store
    intro _
    exact h
  exact hheader.comp htrailer

/-- The trailer of a buffer too small for it lands behind the buffer. -/
theorem attach_beyond (h : len ≤ 28 + 4 * samplesFor len + 3) :
    ¬Within (fun m => (p.attach m dn stream buf len fc pc).2.1) buf len := by
  intro hw
  have hout : Apart (buf + (28 + 4 * samplesFor len) + 3) 1 buf len := .inr (.inr (by
    simp only [Addr.add_off]
    omega))
  have hzero := hw (fun _ => 0) _ hout
  have hlast : (p.attach (fun _ => 0) dn stream buf len fc pc).2.1
      (buf + (28 + 4 * samplesFor len) + 3) = 0x56 := Mem.store_apply_add _ _ vend_last
  exact absurd (hlast.symm.trans hzero) (by decide)

theorem attach_bounded_iff (hlen : len ≤ 0x2000) :
    AttachBounded p dn stream buf len fc pc ↔ 32 ≤ len := by
  constructor
  · intro h
    apply Nat.le_of_not_lt
    intro hlt
    have hwrap := samplesFor_small hlt
    exact attach_beyond p dn stream buf fc pc (by omega) h.writes
  · intro h
    exact ⟨attach_within p dn stream buf fc pc (samplesFor_fits h hlen),
      fun m _ ht => attach_trailer p dn stream buf fc pc m len ht,
      fun m _ _ ha ht => attach_samples p dn stream buf fc pc m len ha ht⟩

theorem make_copy (m : Mem UInt8) (count : Nat) :
    (p.make dn stream smp count fc pc).1.copy m dest =
      ((m.store dest (txHeader dn stream fc pc).toBytes).store (dest + 28)
        ((m.store dest (txHeader dn stream fc pc).toBytes).load smp (4 * count))).store
        (dest + (28 + 4 * count)) vend := by
  rw [← Addr.add_add]
  rfl

theorem copy_within {count : Nat} (h : 28 + 4 * count + 4 ≤ 0x2000) :
    CopyBounded p dn stream smp count fc pc dest := by
  have hheader : Within (fun m => m.store (dest + 0) (txHeader dn stream fc pc).toBytes) dest
      0x2000 := by
    apply Within.store
    intro _
    rw [V49Header.length_toBytes]
    decide
  have hsamples : Within (fun m : Mem UInt8 => m.store (dest + 28) (m.load smp (4 * count)))
      dest 0x2000 := by
    apply Within.store
    intro m
    rw [Mem.length_load]
    omega
  have htrailer : Within (fun m => m.store (dest + (28 + 4 * count)) vend) dest 0x2000 := by
    apply Within.store
    intro _
    exact h
  have hall := (hheader.comp hsamples).comp htrailer
  rw [CopyBounded]
  simp only [make_copy]
  exact hall

theorem copy_beyond {count : Nat} (h : 0x2000 ≤ 28 + 4 * count + 3) :
    ¬CopyBounded p dn stream smp count fc pc dest := by
  intro hw
  have hout : Apart (dest + (28 + 4 * count) + 3) 1 dest 0x2000 := .inr (.inr (by
    simp only [Addr.add_off]
    omega))
  have hzero := hw (fun _ => 0) _ hout
  have hlast : (p.make dn stream smp count fc pc).1.copy (fun _ => 0) dest
      (dest + (28 + 4 * count) + 3) = 0x56 := by
    rw [make_copy]
    exact Mem.store_apply_add _ _ vend_last
  exact absurd (hlast.symm.trans hzero) (by decide)

theorem copy_bounded_iff (count : Nat) :
    CopyBounded p dn stream smp count fc pc dest ↔ count ≤ 2040 := by
  constructor
  · intro h
    apply Nat.le_of_not_lt
    intro hlt
    exact copy_beyond p dn stream smp dest fc pc (by omega) h
  · intro h
    exact copy_within p dn stream smp dest fc pc (by omega)

end

/-- Exactly when the encoders stay inside their buffers. -/
theorem encoders_bounded_iff (p q : V49Packet) (dn : UInt8) (stream : UInt16) (buf : Addr)
    (len : Nat) (smp : Addr) (count : Nat) (dest : Addr) (fc : UInt16) (pc : UInt8)
    (hlen : len ≤ 0x2000) :
    (AttachBounded p dn stream buf len fc pc ↔ 32 ≤ len) ∧
      (CopyBounded q dn stream smp count fc pc dest ↔ count ≤ 2040) :=
  ⟨attach_bounded_iff p dn stream buf fc pc hlen, copy_bounded_iff q dn stream smp dest fc pc count⟩

theorem encoders_bounded_iff_whole :
    AttachBounded new 3 0 ⟨1, 0⟩ 0x2000 5 2 ∧ CopyBounded new 3 0 ⟨0, 0⟩ 2040 5 2 ⟨2, 0⟩ := by
  have h := encoders_bounded_iff new new 3 0 ⟨1, 0⟩ 0x2000 ⟨0, 0⟩ 2040 ⟨2, 0⟩ 5 2 (Nat.le_refl _)
  exact ⟨h.1.2 (by decide), h.2.2 (by decide)⟩

/-- An empty buffer and one sample too many. -/
theorem empty_buffer_overrun :
    ¬AttachBounded new 3 0 ⟨1, 0⟩ 0 5 2 ∧ ¬CopyBounded new 3 0 ⟨0, 0⟩ 2041 5 2 ⟨2, 0⟩ := by
  rw [attach_bounded_iff new 3 0 ⟨1, 0⟩ 5 2 (by decide),
    copy_bounded_iff new 3 0 ⟨0, 0⟩ ⟨2, 0⟩ 5 2 2041]
  decide

end V49Packet
end Avs4000
