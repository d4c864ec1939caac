import Avs4000.TxWireFormat

namespace Avs4000
namespace TxSystem
open Memory BlockFifo V49Packet
open TcpTxSignalClient (pktSize slen sendAmt complete)
set_option autoImplicit true

/-- The byte at an address may stand where it does when a packet begins every 8 KB. -/
def GoodAt (m : Mem UInt8) (x : Addr) : Prop := ByteOk (x.off % 0x2000) (m x)

/-- Every block holds whole packets. -/
def BlocksGood (f : BlockFifo) (m : Mem UInt8) : Prop :=
  ∀ i, (f.blk i).len % 0x2000 = 0 ∧ ∀ off < (f.blk i).len, GoodAt m ⟨i, off⟩

/-- The next bytes from the ring go on from where `n` bytes on the wire leave off. -/
def Resumes (f : BlockFifo) (n : Nat) : Prop :=
  f.inBlk = none ∧ n % 0x2000 = 0 ∨ ∃ r, f.Reading r ∧ n % 0x2000 = r.ptr.off % 0x2000

def PumpGood (b : SocketTxBuffer) (m : Mem UInt8) (n : Nat) : WriteDataPc → Prop
  | .idle => b.done ∨ Resumes b.fifo n
  | .holding r => n % 0x2000 = r.ptr.off % 0x2000 ∧ ∀ j < r.maxAmt, GoodAt m (r.ptr + j)
  | .sent rval => b.done ∨ b.fifo.inBlk = none ∧ n % 0x2000 = 0 ∨
      ∃ r, b.fifo.Reading r ∧ rval ≤ r.maxAmt ∧ n % 0x2000 = (r.ptr.off + rval) % 0x2000

structure Aligned (s : TxSystem) : Prop where
  blocks : BlocksGood s.client.buffer.fifo s.mem
  packet : ∀ r, s.client.buffer.fifo.Writing r → Attached s.client s.caller →
    ∀ j < 0x2000, GoodAt s.mem (r.ptr + j)
  wire : ∀ i b, s.wire[i]? = some b → ByteOk (i % 0x2000) b
  pump : PumpGood s.client.buffer s.mem s.wire.length s.pump

/-- When a step cannot cut a packet on the wire short. A `Flush` may come when the wire is at the
end of a packet, or while the pump is in `::send`; if it does the latter, that `::send` brings
the wire to the end of a packet. -/
def KeepsWhole (s : TxSystem) : Act → Prop
  | .flush => s.client.buffer.done ∨ s.wire.length % 0x2000 = 0 ∨ ∃ r, s.pump = .holding r
  | .sent .again => s.client.buffer.fifo.inBlk = none → s.wire.length % 0x2000 = 0
  | .sent (.accepted (n + 1)) =>
    s.client.buffer.fifo.inBlk = none → (s.wire.length + (n + 1)) % 0x2000 = 0
  | _ => True

theorem goodAt_store (h : GoodAt m x)
    (hb : ∀ j b, bs[j]? = some b → ByteOk ((a.off + j) % 0x2000) b) : GoodAt (m.store a bs) x := by
  rw [GoodAt, Mem.store]
  split
  · next hx =>
    cases hj : bs[x.off - a.off]? with
    | none => exact h
    | some b =>
      have hok := hb _ b hj
      rwa [Nat.add_sub_cancel' hx.2] at hok
  · exact h

theorem BlocksGood.mem (h : BlocksGood f m) (hm : ∀ x, GoodAt m x → GoodAt m' x) :
    BlocksGood f m' := fun i => ⟨(h i).1, fun off ho => hm _ ((h i).2 off ho)⟩

theorem PumpGood.mem (h : PumpGood b m n pc) (hm : ∀ x, GoodAt m x → GoodAt m' x) :
    PumpGood b m' n pc := by
  cases pc with
  | idle => exact h
  | holding r => exact ⟨h.1, fun j hj => hm _ (h.2 j hj)⟩
  | sent rval => exact h

theorem Resumes.producer (h : Resumes f n) (hk : KeepsReading f f') : Resumes f' n :=
  h.imp (fun ⟨hn, hl⟩ => ⟨hk.inBlk.trans hn, hl⟩) fun ⟨r, hr, hl⟩ => ⟨r, hk.reading r hr, hl⟩

theorem PumpGood.producer {b b' : SocketTxBuffer} (h : PumpGood b m n pc)
    (hk : KeepsReading b.fifo b'.fifo) (hd : b'.done = b.done) : PumpGood b' m n pc := by
  cases pc with
  | idle => exact h.imp (hd.trans ·) (·.producer hk)
  | holding r => exact h
  | sent rval =>
    exact h.imp (hd.trans ·) fun h => h.imp (fun ⟨hn, hl⟩ => ⟨hk.inBlk.trans hn, hl⟩)
      fun ⟨r, hr, hle⟩ => ⟨r, hk.reading r hr, hle⟩

theorem BlocksGood.shrink (h : BlocksGood f m)
    (hb : ∀ i, (f'.blk i).len = (f.blk i).len ∨ (f'.blk i).len = 0) : BlocksGood f' m := by
  intro i
  rcases hb i with he | he <;> rw [he]
  · exact h i
  · exact ⟨rfl, fun off ho => absurd ho (Nat.not_lt_zero off)⟩

section
variable {f f' : BlockFifo} {m : Mem UInt8}

theorem writeStart_len (h : f.Inv) (hs : f.writeStart = (f', buf)) (i : Nat) :
    (f'.blk i).len = (f.blk i).len ∨ (f'.blk i).len = 0 := by
  cases buf with
  | none =>
    obtain ⟨rfl, _⟩ := writeStart_none hs
    exact .inl rfl
  | some r =>
    obtain ⟨rfl, _⟩ | ⟨_, _, rfl⟩ := writeStart_cases h hs
    · exact .inl rfl
    · by_cases hi : i = f.head
      · subst hi
        exact .inr (congrArg Block.len (setBlk_self ..))
      · exact .inl (congrArg Block.len (setBlk_ne _ _ hi))

theorem writeComplete_len (hw : f.Writing r) (amt i : Nat) :
    ((f.writeComplete amt).blk i).len =
      if i = f.head then (f.blk i).len + amt else (f.blk i).len := by
  rw [writeComplete_blk_eq hw]
  split
  · next hi => rw [hi]
  · rfl

theorem force_len (h : f.Inv) (i : Nat) : ((f.writeComplete 0).blk i).len = (f.blk i).len := by
  cases ho : f.outBlk with
  | none => rw [writeComplete_outBlk_none ho]
  | some o =>
    obtain ⟨r, hw⟩ := h.writing_of_outBlk ho
    rw [writeComplete_len hw]
    split <;> rfl

theorem readComplete_len (hp : PumpOk f (.sent rval)) (i : Nat) :
    ((f.readComplete rval).blk i).len = (f.blk i).len := by
  rcases hp with hn | ⟨r, hr, _⟩
  · rw [readComplete_inBlk_none hn]
  · rw [readComplete_blk_eq hr]
    split
    · next hi => rw [hi]
    · rfl

/-- A packet completed at the end of the block leaves every block good. -/
theorem BlocksGood.complete (h : BlocksGood f m) (hw : f.Writing r)
    (hp : ∀ j < 0x2000, GoodAt m (r.ptr + j)) : BlocksGood (f.writeComplete pktSize) m := by
  obtain ⟨ho, rfl⟩ := hw
  intro i
  rw [writeComplete_len ⟨ho, rfl⟩]
  split
  · next hi =>
    subst hi
    obtain ⟨hl, hg⟩ := h f.head
    rw [pktSize]
    refine ⟨by omega, fun off hoff => ?_⟩
    by_cases hlt : off < (f.blk f.head).len
    · exact hg off hlt
    · obtain ⟨d, rfl⟩ := Nat.exists_eq_add_of_le (Nat.le_of_not_lt hlt)
      exact hp d (Nat.lt_of_add_lt_add_left hoff)
  · exact h i

end

theorem BlocksGood.writing (h : BlocksGood f m) (hw : f.Writing r) : r.ptr.off % 0x2000 = 0 := by
  obtain ⟨_, rfl⟩ := hw
  exact (h f.head).1

theorem attach_good (c : TcpTxSignalClient) (m : Mem UInt8) (hb : buf.off % 0x2000 = 0) :
    (∀ x, GoodAt m x → GoodAt (c.attach m buf).2 x) ∧
      ∀ j < 0x2000, GoodAt (c.attach m buf).2 (buf + j) := by
  have hmem := attach_mem c.packet m c.dn 0 buf c.nextFrameCount c.nextPacketCount
  have hload := attach_load c.packet m c.dn 0 buf c.nextFrameCount c.nextPacketCount
  have hpk (j : Nat) (b : UInt8)
      (hj : (packetBytes (txHeader c.dn 0 c.nextFrameCount c.nextPacketCount)
        (m.load (buf + 28) 8160))[j]? = some b) : ByteOk j b :=
    packetBytes_byteOk (Mem.length_load ..) hj
  have hlen : (txHeader c.dn 0 c.nextFrameCount c.nextPacketCount).toBytes.length = 28 :=
    V49Header.length_toBytes _
  change (∀ x, _ → GoodAt (c.packet.attach m c.dn 0 buf 0x2000 _ _).2.1 x) ∧
    ∀ j < 0x2000, GoodAt (c.packet.attach m c.dn 0 buf 0x2000 _ _).2.1 _
  constructor
  · intro x hx
    rw [hmem]
    refine goodAt_store (goodAt_store hx fun j b hj => ?_) fun j b hj => ?_
    · have hlt : j < 28 := hlen ▸ (List.getElem?_eq_some_iff.1 hj).1
      rw [show (buf.off + j) % 0x2000 = j by omega]
      apply hpk
      rw [packetBytes, List.append_assoc, List.getElem?_append_left (hlen.symm ▸ hlt), hj]
    · have hlt : j < 4 := length_vend ▸ (List.getElem?_eq_some_iff.1 hj).1
      rw [Addr.add_off, show (buf.off + 8188 + j) % 0x2000 = 8188 + j by omega]
      refine ⟨fun h28 => by omega, fun _ => ?_⟩
      rwa [Nat.add_sub_cancel_left]
  · intro j hj
    rw [GoodAt, Addr.add_off, show (buf.off + j) % 0x2000 = j by omega]
    apply hpk
    rw [← hload, Mem.getElem?_load, if_pos hj]

theorem fill_good {buf x : Addr} (m : Mem UInt8) (hb : buf.off % 0x2000 = 0)
    (hk : k + bs.length ≤ 8160) (hx : GoodAt m x) : GoodAt (m.store (buf + 28 + k) bs) x := by
  refine goodAt_store hx fun j b hj => ?_
  have hlt := (List.getElem?_eq_some_iff.1 hj).1
  simp only [Addr.add_off]
  exact byteOk_payload (by omega) (by omega) b

theorem writing_unique {f : BlockFifo} (h : f.Writing r) (h' : f.Writing r') : r = r' :=
  h.2.trans h'.2.symm

theorem Aligned.move {b : SocketTxBuffer} (h : Aligned s)
    (hk : KeepsReading s.client.buffer.fifo b.fifo) (hd : b.done = s.client.buffer.done)
    (hb : BlocksGood b.fifo s.mem)
    (hp : Attached s.client pc → ∀ r, b.fifo.Writing r → ∀ j < 0x2000, GoodAt s.mem (r.ptr + j)) :
    Aligned { s with client.buffer := b, caller := pc, sends := log } :=
  ⟨hb, fun r hr ha => hp ha r hr, h.wire, h.pump.producer hk hd⟩

theorem aligned_sendStep (hi : Inv s) (h : Aligned s) (hs : SendStep s t) : Aligned t := by
  have hcaller := hi.caller
  have hpacket := h.packet
  have hkeep : KeepsReading s.client.buffer.fifo s.client.buffer.fifo := .refl hi.fifo
  cases hs with
  | enter hc hlt hz hf => exact h.move hkeep rfl h.blocks fun ha => absurd hz ha
  | timeout hc hlt hz hf => exact h.move hkeep rfl h.blocks fun ha => absurd hz ha
  | goOn hc hlt hz =>
    rw [hc] at hpacket
    exact h.move hkeep rfl h.blocks fun _ r hr => hpacket r hr hz
  | finish hc hge =>
    rw [hc] at hpacket
    exact h.move hkeep rfl h.blocks fun ha r hr => hpacket r hr ha
  | short hc hw hm hb =>
    rw [hc] at hcaller
    have hblocks := h.blocks.shrink (writeStart_len hi.fifo hw)
    exact h.move (keepsReading_writeStart hi.fifo hw) rfl hblocks fun ha => absurd hcaller.2 ha
  | noRoom hc hw | room hc hw =>
    have hz := (hcaller.starts hc).2
    have hblocks := h.blocks.shrink (writeStart_len hi.fifo hw)
    exact h.move (keepsReading_writeStart hi.fifo hw) rfl hblocks fun ha => absurd hz ha
  | force hc =>
    rw [hc] at hcaller
    have hblocks := h.blocks.shrink fun i => .inl (force_len hi.fifo i)
    exact h.move (keepsReading_force hi.fifo) rfl hblocks fun ha => absurd hcaller.2 ha
  | attach hc =>
    rw [hc] at hcaller
    obtain ⟨_, _, r, rfl, hr, _⟩ := hcaller
    obtain ⟨hm, hnew⟩ := attach_good s.client s.mem (h.blocks.writing hr)
    exact ⟨h.blocks.mem hm, fun r' hr' _ => writing_unique hr hr' ▸ hnew, h.wire, h.pump.mem hm⟩
  | @fill data sent sbuf hc hb =>
    rw [hc] at hcaller hpacket
    obtain ⟨hle, ho, hlt⟩ := hcaller
    obtain ⟨_, _, hroom⟩ := sendAmt_bounds ho hlt hle
    obtain ⟨_, r, hbuf, hr, _⟩ := ho
    obtain rfl : r.ptr + 28 = sbuf := by
      rw [sampleBuffer, hbuf] at hb
      exact Option.some.inj hb
    have hlen :
        s.client.plen + ((data.drop sent).take (s.client.sendAmt data sent)).length ≤ 8160 := by
      rw [List.length_take]
      omega
    have hm (x : Addr) (hx : GoodAt s.mem x) := fill_good s.mem (h.blocks.writing hr) hlen hx
    exact ⟨h.blocks.mem hm, fun r hr _ j hj => hm _ (hpacket r hr trivial j hj), h.wire,
      h.pump.mem hm⟩
  | fault hc hb => exact absurd hb (hi.sampleBuffer_ne_none hc)
  | filled hc =>
    rw [hc] at hcaller hpacket
    obtain ⟨_, ho, _, _, _⟩ := hcaller
    by_cases hz : s.client.plen = s.client.slen
    · rw [complete, if_pos hz]
      obtain ⟨_, r, _, hr, hm⟩ := ho
      have hk := keepsReading_writeComplete hi.fifo hr hm
      have hpump : PumpGood (s.client.buffer.sendComplete pktSize) s.mem s.wire.length s.pump :=
        h.pump.producer hk (SocketTxBuffer.sendComplete_done ..)
      have hblocks := h.blocks.complete hr (hpacket r hr trivial)
      exact ⟨hblocks, fun _ _ ha => absurd rfl ha, h.wire, hpump⟩
    · rw [complete, if_neg hz]
      exact h.move hkeep rfl h.blocks fun _ r hr => hpacket r hr trivial

theorem Resumes.start {f f' : BlockFifo} (h : Resumes f n) (hi : f.Inv)
    (hr : f.readStart = (f', some r)) : n % 0x2000 = r.ptr.off % 0x2000 := by
  obtain ⟨hcount, rfl, _, rfl⟩ := readStart_cases hi hr
  rcases h with ⟨hn, hz⟩ | ⟨r', hr', hz⟩
  · have hout : f.inBlk ≠ some f.tail := by
      rw [hn]
      intro ht
      cases ht
    have hread := hi.read_zero _ (hi.tail_mem hcount) hout
    rw [hz]
    exact (congrArg (· % 0x2000) hread).symm
  · rw [hz, hr'.2]

theorem wire_append (h : ∀ i b, ws[i]? = some b → ByteOk (i % 0x2000) b)
    (ha : ws.length % 0x2000 = a.off % 0x2000) (hg : ∀ j < n, GoodAt m (a + j)) :
    ∀ i b, (ws ++ m.load a n)[i]? = some b → ByteOk (i % 0x2000) b := by
  intro i b hb
  by_cases hi : i < ws.length
  · rw [List.getElem?_append_left hi] at hb
    exact h i b hb
  · obtain ⟨j, rfl⟩ := Nat.exists_eq_add_of_le (Nat.le_of_not_lt hi)
    rw [List.getElem?_append_right (Nat.le_add_right ..), Nat.add_sub_cancel_left,
      Mem.getElem?_load] at hb
    split at hb
    · next hj =>
      cases hb
      have hok := hg j hj
      rwa [GoodAt, Addr.add_off, Nat.add_mod, ← ha, ← Nat.add_mod] at hok
    · cases hb

theorem readComplete_resumes {f : BlockFifo} (h : f.Inv) (hb : BlocksGood f m) (hr : f.Reading r)
    (hle : k ≤ r.maxAmt) (hn : n % 0x2000 = (r.ptr.off + k) % 0x2000) :
    Resumes (f.readComplete k) n := by
  obtain ⟨hin, hreg⟩ := hr
  by_cases he : k = r.maxAmt
  · refine .inl ⟨by rw [readComplete_close ⟨hin, hreg⟩ h he], ?_⟩
    have hl := (hb f.tail).1
    have hread := h.read_le f.tail
    subst hreg he
    simp only at hn
    rw [hn, Nat.add_sub_cancel' hread, hl]
  · have hlt := Nat.lt_of_le_of_ne hle he
    rw [readComplete_open ⟨hin, hreg⟩ hlt]
    refine .inr ⟨_, ⟨hin, rfl⟩, ?_⟩
    subst hreg
    rw [hn]
    have hread := congrArg Block.read
      (setBlk_self f f.tail { f.blk f.tail with read := (f.blk f.tail).read + k })
    exact congrArg (· % 0x2000) hread.symm

/-- Where the wire is once `::send` has accepted bytes, if no `Flush` came in between. -/
theorem aligned_accepted (hi : Inv s) (h : Aligned s)
    (hk : KeepsWhole s (.sent (.accepted (n + 1)))) (he : s.pump = .holding r)
    (hle : n + 1 ≤ r.maxAmt) :
    Aligned { s with pump := .sent (n + 1), wire := s.wire ++ s.mem.load r.ptr (n + 1) } := by
  have hp := h.pump
  have hheld := hi.pump
  rw [he] at hp hheld
  obtain ⟨hoff, hgood⟩ := hp
  have hwire := wire_append h.wire hoff fun j hj => hgood j (Nat.lt_of_lt_of_le hj hle)
  have hlen : (s.wire ++ s.mem.load r.ptr (n + 1)).length = s.wire.length + (n + 1) := by
    rw [List.length_append, Mem.length_load]
  have hmod : (s.wire.length + (n + 1)) % 0x2000 = (r.ptr.off + (n + 1)) % 0x2000 := by
    rw [Nat.add_mod, hoff, ← Nat.add_mod]
  refine ⟨h.blocks, h.packet, hwire, ?_⟩
  rw [hlen]
  exact .inr (hheld.imp (fun hn => ⟨hn, hk hn⟩) fun hr => ⟨r, hr, hle, hmod⟩)

theorem aligned_complete (hi : Inv s) (h : Aligned s) (he : s.pump = .sent rval) :
    Aligned { s with
      client.buffer := s.client.buffer.writeDataComplete rval, pump := .idle } := by
  have hp := h.pump
  have hheld := hi.pump
  rw [he] at hp hheld
  have hblocks := h.blocks.shrink fun i => .inl (readComplete_len hheld i)
  have hwriting : ∀ w, (s.client.buffer.fifo.readComplete rval).Writing w →
      s.client.buffer.fifo.Writing w := by
    rcases hheld with hn | ⟨r, hr, _⟩
    · rw [readComplete_inBlk_none hn]
      exact fun _ hw => hw
    · exact fun w hw => (readComplete_same hi.fifo hr).symm.writing hw
  refine ⟨hblocks, fun w hw => h.packet w (hwriting w hw), h.wire, ?_⟩
  rcases hp with hd | ⟨hn, hz⟩ | ⟨r, hr, hle, hn⟩
  · exact .inl hd
  · refine .inr (.inl ⟨?_, hz⟩)
    exact (congrArg BlockFifo.inBlk (readComplete_inBlk_none hn rval)).trans hn
  · exact .inr (readComplete_resumes hi.fifo h.blocks hr hle hn)

theorem aligned_flush (h : Aligned s) (hk : KeepsWhole s .flush) :
    Aligned { s with client := s.client.flush } := by
  have hb : BlocksGood s.client.buffer.fifo.reset s.mem := h.blocks.shrink fun i => by
    rcases reset_blk s.client.buffer.fifo i with hr | hr <;> rw [hr]
    · exact .inr rfl
    · exact .inl rfl
  have hpump : PumpGood s.client.flush.buffer s.mem s.wire.length s.pump := by
    have hp := h.pump
    cases hpc : s.pump with
    | idle =>
      rcases hk with hd | hz | ⟨r, hr⟩
      · exact .inl hd
      · exact .inr (.inl ⟨rfl, hz⟩)
      · cases hpc.symm.trans hr
    | holding r =>
      rw [hpc] at hp
      exact hp
    | sent rval =>
      rcases hk with hd | hz | ⟨r, hr⟩
      · exact .inl hd
      · exact .inr (.inl ⟨rfl, hz⟩)
      · cases hpc.symm.trans hr
  refine ⟨hb, ?_, h.wire, hpump⟩
  intro r hr
  cases hr.1

theorem step_aligned (hi : Inv s) (h : Aligned s) (hk : KeepsWhole s a) (hs : Step s a t) :
    Aligned t := by
  have hp := h.pump
  cases hs with
  | send hc hpos hlt =>
    have hpacket := h.packet
    rw [hc] at hpacket
    exact ⟨h.blocks, hpacket, h.wire, hp⟩
  | sendStep junk hs => exact aligned_sendStep hi h hs
  | flush => exact aligned_flush h hk
  | startNone he hd hr =>
    obtain ⟨rfl, _⟩ := readStart_none hr
    rw [he] at hp
    exact ⟨h.blocks, h.packet, h.wire, hp⟩
  | startSome he hd hr =>
    rw [he] at hp
    have hres := hp.resolve_left (Bool.not_eq_true _ ▸ hd)
    have hoff := hres.start hi.fifo hr
    obtain ⟨_, rfl, hreading⟩ := readStart_cases hi.fifo hr
    refine ⟨h.blocks, h.packet, h.wire, hoff, ?_⟩
    intro j hj
    obtain ⟨_, rfl⟩ := hreading
    exact (h.blocks _).2 _ (by simp only at hj ⊢; omega)
  | again he =>
    have hheld := hi.pump
    rw [he] at hp hheld
    refine ⟨h.blocks, h.packet, h.wire, .inr ?_⟩
    exact hheld.imp (fun hn => ⟨hn, hk hn⟩) fun hr => ⟨_, hr, hp.1⟩
  | closed he hres => exact ⟨h.blocks, h.packet, h.wire, .inl rfl⟩
  | accepted he hn => exact aligned_accepted hi h hk he hn
  | complete he => exact aligned_complete hi h he

theorem init_aligned (dn : UInt8) (b c : Nat) : Aligned (init dn b c) where
  blocks _ := ⟨rfl, fun off ho => absurd ho (Nat.not_lt_zero off)⟩
  packet _ hr := absurd hr.1 nofun
  wire _ _ hb := nomatch hb
  pump := .inr (.inl ⟨rfl, rfl⟩)

/-- As long as no `Flush` cuts a packet on the wire short, the wire carries whole packets, the
last of them perhaps not yet complete. -/
theorem flush_keeps_packets {b c : Nat} (hb : 0 < b) (hc : 0 < c)
    (hk : Sys.Along step KeepsWhole (init dn b c) acts)
    (hr : Sys.run step (init dn b c) acts = some s) :
    ∃ ps : List (List UInt8), (∀ p ∈ ps, IsPacket p) ∧ s.wire <+: ps.flatten := by
  have h : Inv s ∧ Aligned s := by
    refine Sys.run_induction (I := fun s => Inv s ∧ Aligned s) ?_
      ⟨init_inv hb hc, init_aligned dn b c⟩ hk hr
    intro s a t ⟨hi, ha⟩ hk hs
    have hs := step_cases hs
    exact ⟨step_inv hi hs, step_aligned hi ha hk hs⟩
  exact exists_packets h.2.wire

theorem callPacket_keepsWhole (data : List UInt8) (s : TxSystem) :
    Sys.Along step KeepsWhole s (callPacket data) :=
  Sys.along_of_always (by simp [callPacket, KeepsWhole]) s

/-- A whole packet is on the wire when a `Flush` comes. -/
theorem flush_keeps_packets_between_calls :
    let acts := sendPacket (List.replicate 8160 7) ++ [.flush]
    ∃ s, Sys.run step (init 1 0x2000 2) acts = some s ∧ s.wire.length = 0x2000 ∧
      ∃ ps : List (List UInt8), (∀ p ∈ ps, IsPacket p) ∧ s.wire <+: ps.flatten := by
  intro acts
  have hlen : (List.replicate 8160 (7 : UInt8)).length = 8160 := List.length_replicate
  obtain ⟨s, hs, h⟩ := run_callPacket 1 hlen
  obtain ⟨t, ht, hsent⟩ := h.sent
  let u := { t with client := t.client.flush }
  have hu : step t .flush = some u := by simp only [step, hsent.caller, u]
  have hrun : Sys.run step t [.flush] = some u := Sys.run_cons_eq_some.2 ⟨u, hu, rfl⟩
  have hpump : Sys.Along step KeepsWhole s pumpWhole := by
    refine ⟨trivial, fun v hv => ⟨fun _ => ?_, fun w _ => ⟨trivial, fun _ _ => trivial⟩⟩⟩
    have hwire : v.wire = [] := by
      cases step_cases hv with
      | startNone | startSome => exact h.wire
    rw [hwire]
    rfl
  have hflush : Sys.Along step KeepsWhole t [.flush] :=
    .cons (.inr (.inl (by rw [hsent.wire]))) hu trivial
  have hsends := Sys.run_append_eq_some.2 ⟨s, hs, ht⟩
  have hacts := Sys.run_append_eq_some.2 ⟨t, hsends, hrun⟩
  have hk := ((callPacket_keepsWhole _ _).concat hs hpump).concat hsends hflush
  exact ⟨u, hacts, hsent.wire, flush_keeps_packets (by decide) (by decide) hk hacts⟩

theorem complete_flush {s : TxSystem} (hp : s.pump = .sent 1) (hc : s.caller = .idle) :
    ∃ t, Sys.run step s [.writeDataComplete, .flush] = some t ∧
      t.caller = .idle ∧ t.client.plen = 0 ∧ t.pump = .idle ∧ t.wire = s.wire ∧
      t.client.buffer.fifo = (s.client.buffer.fifo.readComplete 1).reset ∧
      t.client.buffer.done = s.client.buffer.done := by
  simp only [Sys.run, step, hp, hc, Option.bind_some, Option.some.injEq, exists_eq_left']
  exact ⟨trivial, rfl, trivial, trivial, rfl, rfl⟩

/-- One packet is sent up to its first byte, then a `Flush` discards the rest and another packet
follows. -/
def cutShort (data : List UInt8) : List Act :=
  let send : List Act :=
    [.send data, .sendStep 0, .sendStep 0, .sendStep 0, .sendStep 0, .sendStep 0, .sendStep 0]
  let byte : List Act := [.writeDataStart, .sent (.accepted 1)]
  let flush : List Act := [.writeDataComplete, .flush]
  send ++ byte ++ flush ++ send ++ byte

theorem run_cutShort (hd : data.length = 8160) :
    ∃ s, Sys.run step (init 0 0x2000 2) (cutShort data) = some s ∧ s.wire = [0x50, 0x50] := by
  let f₁ := (BlockFifo.new 0x2000 2).writeStart.1.writeComplete pktSize
  let f₃ := (f₁.readStart.1.readComplete 1).reset
  let f₄ := f₃.writeStart.1.writeComplete pktSize
  have hread₁ : f₁.readStart = (f₁.readStart.1, some ⟨⟨0, 0⟩, 0x2000⟩) := by
    simp [f₁, readStart, writeComplete, writeStart, BlockFifo.new, setBlk, full, empty, pinc,
      pktSize, Block.reset]
  have hstart₃ : ¬f₃.full ∧ f₃.writeStart = (f₃.writeStart.1, some ⟨⟨0, 0⟩, 0x2000⟩) := by
    simp [f₃, f₁, readStart, writeComplete, writeStart, BlockFifo.new, setBlk, full, empty, pinc,
      pktSize, Block.reset, readComplete, reset]
  have hread₄ : f₄.readStart = (f₄.readStart.1, some ⟨⟨0, 0⟩, 0x2000⟩) := by
    simp [f₄, f₃, f₁, readStart, writeComplete, writeStart, BlockFifo.new, setBlk, full, empty,
      pinc, pktSize, Block.reset, readComplete, reset]
  obtain ⟨s₁, h₁, hc₁, hp₁, hu₁, hw₁, hf₁, hd₁, hb₁, _⟩ := send_packet (s := init 0 0x2000 2)
    (r := ⟨⟨0, 0⟩, 0x2000⟩) hd rfl rfl (by decide) rfl (by decide)
  obtain ⟨s₂, h₂, hc₂, hp₂, hu₂, hw₂, hf₂, hd₂⟩ :=
    pump_byte (s := s₁) hu₁ hd₁ ((congrArg readStart hf₁).trans hread₁) (by decide)
  obtain ⟨s₃, h₃, hc₃, hp₃, hu₃, hw₃, hf₃, hd₃⟩ := complete_flush hu₂ (hc₂.trans hc₁)
  rw [hf₂] at hf₃
  obtain ⟨s₄, h₄, hc₄, hp₄, hu₄, hw₄, hf₄, hd₄, hb₄, _⟩ := send_packet (s := s₃) hd hc₃ hp₃
    (hf₃ ▸ hstart₃.1) ((congrArg writeStart hf₃).trans hstart₃.2) (by decide)
  obtain ⟨s₅, h₅, _, _, _, hw₅, _⟩ := pump_byte (s := s₄) (hu₄.trans hu₃)
    (hd₄.trans (hd₃.trans hd₂)) ((congrArg readStart hf₄).trans hread₄) (by decide)
  refine ⟨s₅, ?_, ?_⟩
  · simp only [cutShort, Sys.run_append_eq_some]
    exact ⟨s₄, ⟨s₃, ⟨s₂, ⟨s₁, h₁, h₂⟩, h₃⟩, h₄⟩, h₅⟩
  · rw [hw₅, hw₄, hw₃, hw₂, hw₁, hb₁, hb₄]
    rfl

/-- A `Flush` in the middle of a packet on the wire puts the start of another behind it. -/
theorem flush_cuts_packet : ∃ s, Sys.run step (init 0 0x2000 2) (cutShort (List.replicate 8160 0)) =
      some s ∧ s.wire = [0x50, 0x50] ∧
    ¬∃ ps : List (List UInt8), (∀ p ∈ ps, IsPacket p) ∧ s.wire <+: ps.flatten := by
  have hd : (List.replicate 8160 (0 : UInt8)).length = 8160 := List.length_replicate
  obtain ⟨s, hr, hw⟩ := run_cutShort hd
  refine ⟨s, hr, hw, ?_⟩
  rintro ⟨ps, hps, hpre⟩
  have hbyte := List.prefix_iff_getElem?.1 hpre 1 (by rw [hw]; decide)
  simp only [hw, List.getElem_cons_succ, List.getElem_cons_zero] at hbyte
  cases ps with
  | nil => cases hbyte
  | cons p ps =>
    have hp := hps p (List.mem_cons_self ..)
    have hlt : 1 < p.length := by
      rw [hp.1]
      decide
    rw [List.flatten_cons, List.getElem?_append_left hlt, hp.second_byte] at hbyte
    exact absurd (Option.some.inj hbyte) (by decide)

end TxSystem
end Avs4000
