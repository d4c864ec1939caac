import Avs4000.Lib.Frames
import Avs4000.TxInvariant
import Avs4000.V49Framing

namespace Avs4000
namespace TxSystem
open Memory BlockFifo V49Packet Frames
open TcpTxSignalClient (pktSize slen sendAmt complete)
set_option autoImplicit true

/-- The header the `k`-th packet is to have. -/
def wireHeader (dn : UInt8) (k : Nat) : V49Header :=
  { txHeader dn 0 0 0 with
    frameCount := BitVec.ofNat 12 k
    pktCount := BitVec.ofNat 4 k
    streamId := dn.toUInt32 <<< 16 }

/-- The first `n` packets for a stream of sample bytes. -/
def packets (dn : UInt8) (n : Nat) (bs : List UInt8) : List UInt8 :=
  (List.range n).flatMap fun k => packetBytes (wireHeader dn k) (frame 8160 bs k)

/-- The bytes that the finished calls of `Send` reported as accepted. -/
def accepted (s : TxSystem) : List UInt8 := s.sends.flatMap fun (data, sent) => data.take sent

/-- The bytes that a running call has accepted. -/
def inFlight : SendPc → List UInt8
  | .idle | .fault => []
  | .loop data sent | .ready data sent | .forced data sent _ | .restart data sent _
  | .attach data sent _ | .fill data sent | .filled data sent _ => data.take sent

def taken (s : TxSystem) : List UInt8 := s.accepted ++ inFlight s.caller

/-- The bytes that `memcpy` has moved before the running call counts them. -/
def copied : SendPc → List UInt8
  | .filled data sent amt => (data.drop sent).take amt
  | _ => []

/-- What the pump has put on the wire, given what it has taken off the ring. -/
def PumpWire (f : BlockFifo) (m : Mem UInt8) (wire gone : List UInt8) : WriteDataPc → Prop
  | .idle => wire = gone
  | .holding r => f.Reading r ∧ wire = gone
  | .sent rval => ∃ r, f.Reading r ∧ rval ≤ r.maxAmt ∧ wire = gone ++ m.load r.ptr rval

/-- The open packet has header `n` and begins with the bytes `bs`. -/
def PacketHolds (dn : UInt8) (n : Nat) (c : TcpTxSignalClient) (m : Mem UInt8)
    (bs : List UInt8) : Prop :=
  c.nextFrameCount = .ofNat (n + 1) ∧ c.nextPacketCount = .ofNat (n + 1) ∧
    ∃ buf payload, c.packet.buffer = some buf ∧ payload.length = 8160 ∧
      m.load buf pktSize = packetBytes (wireHeader dn n) payload ∧ payload.take c.plen = bs

/-- The accepted bytes are `n` whole packets, on the wire or queued, and a part of the next. -/
structure Content (dn : UInt8) (s : TxSystem) (n : Nat) (whole part : List UInt8) : Prop where
  source : s.client.dn = dn
  taken : s.taken = whole ++ part
  length : whole.length = 8160 * n
  plen : s.client.plen = part.length + (copied s.caller).length
  closed : ¬Attached s.client s.caller →
    s.client.nextFrameCount = .ofNat n ∧ s.client.nextPacketCount = .ofNat n
  packet : Attached s.client s.caller →
    PacketHolds dn n s.client s.mem (part ++ copied s.caller)
  stream : ∃ gone, PumpWire s.client.buffer.fifo s.mem s.wire gone s.pump ∧
    gone ++ (s.client.buffer.fifo.unread s.mem ++ s.client.buffer.fifo.filling s.mem) =
      packets dn n whole

theorem txHeader_ofNat (dn : UInt8) (n : Nat) :
    txHeader dn 0 (.ofNat n) (.ofNat n) = wireHeader dn n := by
  have hf : BitVec.ofNat 12 (UInt16.ofNat n).toNat = BitVec.ofNat 12 n := by
    apply BitVec.eq_of_toNat_eq
    rw [BitVec.toNat_ofNat, BitVec.toNat_ofNat, UInt16.toNat_ofNat']
    omega
  have hp : BitVec.ofNat 4 ((UInt8.ofNat n).toNat % 0x10) = BitVec.ofNat 4 n := by
    apply BitVec.eq_of_toNat_eq
    rw [BitVec.toNat_ofNat, BitVec.toNat_ofNat, UInt8.toNat_ofNat']
    omega
  have hs : dn.toUInt32 <<< 16 ||| (0 : UInt16).toUInt32 = dn.toUInt32 <<< 16 := UInt32.or_zero
  rw [txHeader, wireHeader, hf, hp, hs]
  rfl

theorem packets_append (h : whole.length = 8160 * n) (bs : List UInt8) :
    packets dn n (whole ++ bs) = packets dn n whole := by
  rw [packets, packets]
  apply List.flatMap_congr
  intro k hk
  have hle : 8160 * (k + 1) ≤ whole.length := h ▸ Nat.mul_le_mul_left _ (List.mem_range.1 hk)
  rw [frame_append_left hle]

theorem packets_succ (dn : UInt8) (h : whole.length = 8160 * n) (hp : payload.length = 8160) :
    packets dn (n + 1) (whole ++ payload) =
      packets dn n whole ++ packetBytes (wireHeader dn n) payload := by
  have hf := frame_append_right h payload 0
  have hz := frame_zero hp []
  rw [List.append_nil] at hz
  rw [Nat.add_zero, hz] at hf
  rw [packets, List.range_succ, List.flatMap_append, List.flatMap_singleton, hf]
  congr 1
  exact packets_append h payload

theorem PumpWire.producer (h : PumpWire f m ws gone pc) (hk : KeepsReading f f') :
    PumpWire f' m ws gone pc := by
  cases pc with
  | idle => exact h
  | holding r => exact ⟨hk.reading r h.1, h.2⟩
  | sent rval =>
    obtain ⟨r, hr, hn, hw⟩ := h
    exact ⟨r, hk.reading r hr, hn, hw⟩

theorem PumpWire.mem (h : PumpWire f m ws gone pc) (hs : SameContent f m m') :
    PumpWire f m' ws gone pc := by
  cases pc with
  | idle => exact h
  | holding r => exact h
  | sent rval =>
    obtain ⟨r, hr, hn, he⟩ := h
    exact ⟨r, hr, hn, (hs.reading r hr rval).symm ▸ he⟩

theorem taken_ret (s : TxSystem) (data : List UInt8) (sent : Nat) :
    (s.ret data sent).taken = s.accepted ++ data.take sent := by
  rw [taken, accepted, ret, List.flatMap_append, List.flatMap_singleton, inFlight, List.append_nil,
    accepted]

theorem taken_eq {s : TxSystem} (h : s.caller = pc) : s.taken = s.accepted ++ inFlight pc := by
  rw [taken, h]

/-- A step that leaves the packet and the memory alone keeps the content if it keeps the counts
and the stream. -/
theorem Content.move {b : SocketTxBuffer} (h : Content dn s n whole part)
    (ht : TxSystem.taken { s with caller := pc, sends := log } = s.taken)
    (hc : copied pc = copied s.caller) (ha : Attached s.client pc ↔ Attached s.client s.caller)
    (hs : ∃ gone, PumpWire b.fifo s.mem ws gone p ∧
      gone ++ (b.fifo.unread s.mem ++ b.fifo.filling s.mem) = packets dn n whole) :
    Content dn { s with
      client.buffer := b, caller := pc, pump := p, wire := ws, sends := log } n whole part where
  source := h.source
  taken := ht.trans h.taken
  length := h.length
  plen := by rw [hc]; exact h.plen
  closed hn := h.closed fun hp => hn (ha.2 hp)
  packet hp := by rw [hc]; exact h.packet (ha.1 hp)
  stream := hs

theorem Content.goto {b : SocketTxBuffer} (h : Content dn s n whole part) (he : s.caller = x)
    (ht : TxSystem.taken { s with caller := pc, sends := log } = s.taken)
    (hc : copied pc = copied x) (ha : Attached s.client pc ↔ Attached s.client x)
    (hs : ∃ gone, PumpWire b.fifo s.mem s.wire gone s.pump ∧
      gone ++ (b.fifo.unread s.mem ++ b.fifo.filling s.mem) = packets dn n whole) :
    ∃ n' whole' part',
      Content dn { s with client.buffer := b, caller := pc, sends := log } n' whole' part' ∧
        whole ++ part <+: whole' ++ part' := by
  subst he
  exact ⟨n, whole, part, h.move ht hc ha hs, List.prefix_rfl⟩

theorem Content.stream_producer (h : Content dn s n whole part)
    (hk : KeepsReading s.client.buffer.fifo f')
    (he : f'.unread s.mem ++ f'.filling s.mem =
      s.client.buffer.fifo.unread s.mem ++ s.client.buffer.fifo.filling s.mem) :
    ∃ gone, PumpWire f' s.mem s.wire gone s.pump ∧
      gone ++ (f'.unread s.mem ++ f'.filling s.mem) = packets dn n whole := by
  obtain ⟨gone, hp, hg⟩ := h.stream
  exact ⟨gone, hp.producer hk, he ▸ hg⟩

theorem writeStart_content {f : BlockFifo} (h : f.Inv) (hs : f.writeStart = (f', buf))
    (m : Mem UInt8) : f'.unread m ++ f'.filling m = f.unread m ++ f.filling m := by
  cases buf with
  | none =>
    obtain ⟨rfl, _⟩ := writeStart_none hs
    rfl
  | some r => rw [(writeStart_same h hs).unread, writeStart_filling h hs]

theorem Content.stream_start (h : Content dn s n whole part) (hi : s.client.buffer.fifo.Inv)
    (hw : s.client.buffer.fifo.writeStart = (f', buf)) :
    ∃ gone, PumpWire f' s.mem s.wire gone s.pump ∧
      gone ++ (f'.unread s.mem ++ f'.filling s.mem) = packets dn n whole :=
  h.stream_producer (keepsReading_writeStart hi hw) (writeStart_content hi hw s.mem)

theorem force_content {f : BlockFifo} (h : f.Inv) (m : Mem UInt8) :
    (f.writeComplete 0).unread m ++ (f.writeComplete 0).filling m = f.unread m ++ f.filling m := by
  cases ho : f.outBlk with
  | none => rw [writeComplete_outBlk_none ho]
  | some o =>
    obtain ⟨r, hw⟩ := h.writing_of_outBlk ho
    rw [writeComplete_content h hw (Nat.zero_le _), Mem.load_zero, List.append_nil]

theorem Content.stream_mem (h : Content dn s n whole part)
    (hs : SameContent s.client.buffer.fifo s.mem m') :
    ∃ gone, PumpWire s.client.buffer.fifo m' s.wire gone s.pump ∧
      gone ++ (s.client.buffer.fifo.unread m' ++ s.client.buffer.fifo.filling m') =
        packets dn n whole := by
  obtain ⟨gone, hp, hg⟩ := h.stream
  rw [hs.unread, hs.filling]
  exact ⟨gone, hp.mem hs, hg⟩

theorem attach_sameContent {f : BlockFifo} (h : f.Inv) (hr : f.Writing r) (hm : pktSize ≤ r.maxAmt)
    (p : V49Packet) (m : Mem UInt8) (dn : UInt8) (fc : UInt16) (pc : UInt8) :
    SameContent f m (p.attach m dn 0 r.ptr pktSize fc pc).2.1 := by
  have hmem := attach_mem p m dn 0 r.ptr fc pc
  have hhead : 0 + (txHeader dn 0 fc pc).toBytes.length ≤ r.maxAmt := by
    rw [V49Header.length_toBytes]
    exact Nat.le_trans (by decide) hm
  have htail : 8188 + vend.length ≤ r.maxAmt := by
    rw [length_vend]
    exact hm
  change SameContent f m (p.attach m dn 0 r.ptr 0x2000 fc pc).2.1
  rw [hmem]
  exact (sameContent_store h hr hhead m).trans (sameContent_store h hr htail _)

theorem attach_holds {c : TcpTxSignalClient} (hd : c.dn = dn) (hf : c.nextFrameCount = .ofNat n)
    (hk : c.nextPacketCount = .ofNat n) (hp : c.plen = 0) (m : Mem UInt8) (buf : Addr) :
    PacketHolds dn n (c.attach m buf).1 (c.attach m buf).2 [] := by
  have hload := attach_load c.packet m c.dn 0 buf c.nextFrameCount c.nextPacketCount
  rw [hd, hf, hk, txHeader_ofNat] at hload
  refine ⟨?_, ?_, buf, m.load (buf + 28) 8160, rfl, Mem.length_load .., ?_, ?_⟩
  · change c.nextFrameCount + 1 = _
    rw [hf, UInt16.ofNat_add]
    rfl
  · change c.nextPacketCount + 1 = _
    rw [hk, UInt8.ofNat_add]
    rfl
  · rw [← hload, ← hd, ← hf, ← hk]
    rfl
  · change List.take c.plen _ = []
    rw [hp, List.take_zero]

theorem content_attach (hi : Inv s) (h : Content dn s n whole part)
    (he : s.caller = .attach data sent buf) :
    Content dn { s with
      client := (s.client.attach s.mem buf).1, mem := (s.client.attach s.mem buf).2
      caller := .fill data sent } n whole part := by
  have hc := hi.caller
  rw [he] at hc
  obtain ⟨_, hp, r, rfl, hr, hm⟩ := hc
  have hplen := h.plen
  have hclosed := h.closed
  rw [he, hp] at hplen
  rw [he] at hclosed
  obtain ⟨hf, hk⟩ := hclosed fun hne => hne hp
  have hpart : part = [] :=
    List.eq_nil_of_length_eq_zero (Nat.eq_zero_of_add_eq_zero_right hplen.symm)
  have hsame := attach_sameContent hi.fifo hr hm s.client.packet s.mem s.client.dn
    s.client.nextFrameCount s.client.nextPacketCount
  exact
    { source := h.source
      taken := (taken_eq he).symm.trans h.taken
      length := h.length
      plen := hp.trans hplen
      closed := fun hn => absurd trivial hn
      packet := fun _ => hpart ▸ attach_holds h.source hf hk hp s.mem r.ptr
      stream := h.stream_mem hsame }

theorem content_fill (hi : Inv s) (h : Content dn s n whole part)
    (he : s.caller = .fill data sent) (hb : s.client.packet.sampleBuffer = some sbuf) :
    Content dn { s with
      client.plen := s.client.plen + s.client.sendAmt data sent
      mem := s.mem.store (sbuf + s.client.plen)
        ((data.drop sent).take (s.client.sendAmt data sent))
      caller := .filled data sent (s.client.sendAmt data sent) } n whole part := by
  have hc := hi.caller
  have hplen := h.plen
  have hpacket := h.packet
  rw [he] at hc hplen hpacket
  obtain ⟨hle, ho, hp⟩ := hc
  obtain ⟨_, hdata, hroom⟩ := sendAmt_bounds ho hp hle
  obtain ⟨hf, hk, buf, payload, hbuf, hl, hload, htake⟩ := hpacket trivial
  obtain ⟨_, r, hbuf', hr, hm⟩ := ho
  obtain rfl : r.ptr = buf := Option.some.inj (hbuf'.symm.trans hbuf)
  obtain rfl : r.ptr + V49Header.size = sbuf := by
    rw [sampleBuffer, hbuf] at hb
    exact Option.some.inj hb
  replace htake : payload.take s.client.plen = part := htake.trans (List.append_nil part)
  have hlen : ((data.drop sent).take (s.client.sendAmt data sent)).length =
      s.client.sendAmt data sent := by
    rw [List.length_take, List.length_drop, Nat.min_eq_left hdata]
  have hin : 28 + s.client.plen + ((data.drop sent).take (s.client.sendAmt data sent)).length ≤
      r.maxAmt := by
    rw [hlen]
    simp only [pktSize] at hm
    omega
  have hsame := sameContent_store hi.fifo hr hin s.mem
  have hstore := store_payload_at (k := s.client.plen) s.mem hload hl (hlen.symm ▸ hroom)
  exact
    { source := h.source
      taken := (taken_eq he).symm.trans h.taken
      length := h.length
      plen := by
        rw [copied, hlen]
        exact congrArg (· + s.client.sendAmt data sent) hplen
      closed := fun hn => absurd trivial hn
      packet := fun _ => by
        refine ⟨hf, hk, r.ptr, _, hbuf, ?_, hstore, ?_⟩
        · simp only [List.length_append, List.length_take, List.length_drop, hl]
          omega
        · rw [htake, copied]
          apply List.take_left'
          rw [List.length_append, hlen]
          exact congrArg (· + s.client.sendAmt data sent) hplen.symm
      stream := h.stream_mem (Addr.add_add r.ptr 28 s.client.plen ▸ hsame) }

theorem taken_filled {s : TxSystem} (h : s.caller = .filled data sent amt) :
    s.accepted ++ data.take (sent + amt) = s.taken ++ copied (.filled data sent amt) := by
  rw [taken_eq h, inFlight, copied, List.take_add, List.append_assoc]

theorem content_filled_open (hi : Inv s) (h : Content dn s n whole part)
    (he : s.caller = .filled data sent amt) (hne : s.client.plen ≠ 8160) :
    Content dn { s with client := s.client.complete, caller := .loop data (sent + amt) } n whole
      (part ++ copied (.filled data sent amt)) := by
  have hc := hi.caller
  have hplen := h.plen
  have hpacket := h.packet
  rw [he] at hc hplen hpacket
  obtain ⟨hle, ho, hpos, ha, hp⟩ := hc
  simp only [complete, slen_eq ho, if_neg hne]
  exact
    { source := h.source
      taken := by
        change s.accepted ++ data.take (sent + amt) = _
        rw [taken_filled he, h.taken, List.append_assoc]
      length := h.length
      plen := hplen.trans List.length_append.symm
      closed := fun hn => absurd (Nat.ne_of_gt (Nat.lt_of_lt_of_le hpos ha)) hn
      packet := fun _ => (List.append_nil _).symm ▸ hpacket trivial
      stream := h.stream }

theorem content_filled_close (hi : Inv s) (h : Content dn s n whole part)
    (he : s.caller = .filled data sent amt) (hne : s.client.plen = 8160) :
    Content dn { s with client := s.client.complete, caller := .loop data (sent + amt) } (n + 1)
      (whole ++ (part ++ copied (.filled data sent amt))) [] := by
  have hc := hi.caller
  have hplen := h.plen
  have hpacket := h.packet
  rw [he] at hc hplen hpacket
  obtain ⟨hle, ho, hpos, ha, hp⟩ := hc
  have hcomplete : s.client.complete =
      { s.client with buffer := s.client.buffer.sendComplete pktSize, plen := 0 } :=
    if_pos (hne.trans (slen_eq ho).symm)
  simp only [hcomplete]
  obtain ⟨hf, hk, buf, payload, hb, hl, hload, htake⟩ := hpacket trivial
  obtain ⟨_, r, hb', hr, hm⟩ := ho
  obtain rfl : r.ptr = buf := Option.some.inj (hb'.symm.trans hb)
  rw [hne, ← hl, List.take_length] at htake
  have hcont := writeComplete_content hi.fifo hr hm s.mem
  rw [hload] at hcont
  obtain ⟨gone, hw, hg⟩ := h.stream
  have hsucc := packets_succ dn h.length hl
  rw [← hg, List.append_assoc, ← hcont] at hsucc
  have hlen : (whole ++ (part ++ copied (.filled data sent amt))).length = 8160 * (n + 1) := by
    rw [List.length_append, h.length, ← htake, hl, Nat.mul_succ]
  have htaken := (taken_filled he).trans (congrArg (· ++ copied (.filled data sent amt)) h.taken)
  exact
    { source := by
        dsimp only
        exact h.source
      taken := by
        rw [List.append_nil, ← List.append_assoc, ← htaken, TxSystem.taken, accepted]
        rfl
      length := hlen
      plen := rfl
      closed := fun _ => ⟨hf, hk⟩
      packet := fun hp => absurd rfl hp
      stream := ⟨gone, hw.producer (keepsReading_writeComplete hi.fifo hr hm), htake ▸ hsucc.symm⟩ }

theorem content_sendStep (hi : Inv s) (h : Content dn s n whole part) (hs : SendStep s t) :
    ∃ n' whole' part', Content dn t n' whole' part' ∧ whole ++ part <+: whole' ++ part' := by
  cases hs with
  | enter hc hlt hz hf => exact h.goto hc (taken_eq hc).symm rfl .rfl h.stream
  | timeout hc hlt hz hf =>
    exact h.goto hc ((taken_ret ..).trans (taken_eq hc).symm) rfl .rfl h.stream
  | goOn hc hlt hz =>
    exact h.goto hc (taken_eq hc).symm rfl ⟨fun _ => hz, fun _ => trivial⟩ h.stream
  | finish hc hge => exact h.goto hc ((taken_ret ..).trans (taken_eq hc).symm) rfl .rfl h.stream
  | short hc hw hm hb =>
    exact h.goto hc (taken_eq hc).symm rfl .rfl (h.stream_start hi.fifo hw)
  | noRoom hc hw =>
    have hst := h.stream_start hi.fifo hw
    rcases hc with hc | ⟨m, hc⟩
    · exact h.goto hc ((taken_ret ..).trans (taken_eq hc).symm) rfl .rfl hst
    · exact h.goto hc ((taken_ret ..).trans (taken_eq hc).symm) rfl .rfl hst
  | room hc hw hm =>
    have hst := h.stream_start hi.fifo hw
    rcases hc with hc | ⟨m, hc⟩
    · exact h.goto hc (taken_eq hc).symm rfl .rfl hst
    · exact h.goto hc (taken_eq hc).symm rfl .rfl hst
  | force hc =>
    have hst := h.stream_producer (keepsReading_force hi.fifo) (force_content hi.fifo s.mem)
    exact h.goto hc (taken_eq hc).symm rfl .rfl hst
  | attach hc => exact ⟨n, whole, part, content_attach hi h hc, List.prefix_rfl⟩
  | fill hc hb => exact ⟨n, whole, part, content_fill hi h hc hb, List.prefix_rfl⟩
  | fault hc hb => exact absurd hb (hi.sampleBuffer_ne_none hc)
  | filled hc =>
    by_cases hp : s.client.plen = 8160
    · refine ⟨_, _, _, content_filled_close hi h hc hp, copied s.caller, ?_⟩
      rw [List.append_nil, List.append_assoc, hc]
    · refine ⟨_, _, _, content_filled_open hi h hc hp, copied s.caller, ?_⟩
      rw [List.append_assoc, hc]

theorem step_content (hi : Inv s) (h : Content dn s n whole part) (hf : a ≠ .flush)
    (hs : Step s a t) :
    ∃ n' whole' part', Content dn t n' whole' part' ∧ whole ++ part <+: whole' ++ part' := by
  have hstay (ht : Content dn t n whole part) :
      ∃ n' whole' part', Content dn t n' whole' part' ∧ whole ++ part <+: whole' ++ part' :=
    ⟨n, whole, part, ht, List.prefix_rfl⟩
  obtain ⟨gone, hw, hg⟩ := h.stream
  cases hs with
  | send hc hpos hlt => exact h.goto hc (taken_eq hc).symm rfl .rfl h.stream
  | sendStep junk hs => exact content_sendStep hi h hs
  | flush => exact absurd rfl hf
  | startNone hp hd hr =>
    obtain ⟨rfl, _⟩ := readStart_none hr
    rw [hp] at hw
    exact hstay (h.move rfl rfl .rfl ⟨gone, hw, hg⟩)
  | startSome hp hd hr =>
    have hreading := (readStart_cases hi.fifo hr).2.2
    have hfill := (readStart_same hi.fifo hr).filling hi.fifo s.mem
    rw [← readStart_unread hi.fifo hr, ← hfill] at hg
    rw [hp] at hw
    exact hstay (h.move rfl rfl .rfl ⟨gone, ⟨hreading, hw⟩, hg⟩)
  | again hp =>
    rw [hp] at hw
    exact hstay (h.move rfl rfl .rfl ⟨gone, hw.2, hg⟩)
  | closed hp hres =>
    rw [hp] at hw
    exact hstay (h.move rfl rfl .rfl ⟨gone, hw.2, hg⟩)
  | accepted hp hn =>
    rw [hp] at hw
    obtain ⟨hr, hw⟩ := hw
    exact hstay (h.move rfl rfl .rfl ⟨gone, ⟨_, hr, hn, by rw [hw]⟩, hg⟩)
  | @complete rval hp =>
    rw [hp] at hw
    obtain ⟨r, hr, hle, hw⟩ := hw
    have hsame : SameFill _ (s.client.buffer.fifo.readComplete rval) := readComplete_same hi.fifo hr
    have hfill := hsame.filling hi.fifo s.mem
    rw [readComplete_content hi.fifo hr hle, ← hfill, List.append_assoc, ← List.append_assoc] at hg
    exact hstay (h.move rfl rfl .rfl ⟨_, hw, hg⟩)

theorem init_content (dn : UInt8) (b c : Nat) : Content dn (init dn b c) 0 [] [] where
  source := rfl
  taken := rfl
  length := rfl
  plen := rfl
  closed _ := ⟨rfl, rfl⟩
  packet h := absurd rfl h
  stream := ⟨[], rfl, rfl⟩

/-- Without a `Flush`, a run keeps the content and only ever adds to the accepted bytes. -/
theorem run_content (hi : Inv s) (h : Content dn s n whole part) (hf : ∀ a ∈ acts, a ≠ .flush)
    (hr : Sys.run step s acts = some t) :
    Inv t ∧ (∃ n' whole' part', Content dn t n' whole' part') ∧ s.taken <+: t.taken := by
  refine Sys.run_induction (G := fun _ a => a ≠ .flush) (I := fun u =>
    Inv u ∧ (∃ n' whole' part', Content dn u n' whole' part') ∧ s.taken <+: u.taken) ?_
    ⟨hi, ⟨n, whole, part, h⟩, List.prefix_rfl⟩ (Sys.along_of_forall hf _) hr
  intro u a v ⟨hu, ⟨_, _, _, hc⟩, hp⟩ ha hs
  have hs := step_cases hs
  obtain ⟨n', whole', part', hv, hext⟩ := step_content hu hc ha hs
  rw [← hc.taken, ← hv.taken] at hext
  exact ⟨step_inv hu hs, ⟨n', whole', part', hv⟩, hp.trans hext⟩

theorem part_lt (hi : Inv s) (h : Content dn s n whole part) : part.length < 8160 := by
  have hc := hi.caller
  have hp := h.plen
  cases he : s.caller with
  | idle | loop data sent | ready data sent | forced data sent max | restart data sent max
  | attach data sent buf | fill data sent =>
    rw [he] at hc hp
    simp only [CallerOk, copied, List.length_nil] at hc hp
    omega
  | filled data sent amt =>
    rw [he] at hc hp
    obtain ⟨hle, _, hpos, _, hp'⟩ := hc
    simp only [copied, List.length_take, List.length_drop] at hp
    omega
  | fault =>
    rw [he] at hc
    exact hc.elim

theorem attached_of_part (h : Content dn s n whole part) (hp : part ≠ []) :
    Attached s.client s.caller := by
  have hpos := List.length_pos_iff.2 hp
  have hne : s.client.plen ≠ 0 := by
    rw [h.plen]
    omega
  cases s.caller with
  | fill | filled => trivial
  | _ => exact hne

/-- What the pump has sent is the start of the stream of whole packets. -/
theorem PumpWire.prefix_stream {f : BlockFifo} (h : PumpWire f m ws gone pc) (hi : f.Inv) :
    gone <+: ws ∧ ws <+: gone ++ (f.unread m ++ f.filling m) := by
  cases pc with
  | idle =>
    cases h
    exact ⟨List.prefix_rfl, List.prefix_append ..⟩
  | holding r =>
    obtain ⟨_, rfl⟩ := h
    exact ⟨List.prefix_rfl, List.prefix_append ..⟩
  | sent rval =>
    obtain ⟨r, hr, hle, rfl⟩ := h
    refine ⟨List.prefix_append .., (List.prefix_append_right_inj gone).2 ?_⟩
    have hp := (List.take_prefix rval _).trans (hr.prefix_unread hi m)
    rw [Mem.take_load m _ hle] at hp
    exact hp.trans (List.prefix_append ..)

theorem send_packet {s : TxSystem} (hd : data.length = 8160) (hc : s.caller = .idle)
    (hp : s.client.plen = 0) (hf : ¬s.client.buffer.fifo.full)
    (hw : s.client.buffer.fifo.writeStart = (f', some r)) (hr : ¬r.maxAmt < pktSize) :
    ∃ t, Sys.run step s [.send data, .sendStep 0, .sendStep 0, .sendStep 0, .sendStep 0,
        .sendStep 0, .sendStep 0] = some t ∧
      t.caller = .idle ∧ t.client.plen = 0 ∧ t.pump = s.pump ∧ t.wire = s.wire ∧
      t.client.buffer.fifo = f'.writeComplete pktSize ∧
      t.client.buffer.done = s.client.buffer.done ∧ t.mem r.ptr = 0x50 ∧
      t.sends = s.sends ++ [(data, 8160)] := by
  have hpos : 0 < data.length := by omega
  have hlt : data.length < 2 ^ 32 := by omega
  let s₁ := { s with caller := .loop data 0 }
  have h₁ : step s (.send data) = some s₁ := by
    simp only [step, hc, hpos, hlt, and_self, if_true, s₁]
  let s₂ := { s with caller := .ready data 0 }
  have h₂ : step s₁ (.sendStep 0) = some s₂ := by
    simp only [step, sendStep, s₁, s₂, hpos, hp, SocketTxBuffer.waitForReadySend, hf, if_true,
      decide_false, Bool.not_false]
  let c := { s.client with buffer.fifo := f' }
  let s₃ := { s with client := c, caller := .attach data 0 r.ptr }
  have h₃ : step s₂ (.sendStep 0) = some s₃ := by
    simp only [step, sendStep, s₂, s₃, c, SocketTxBuffer.sendStart, hw, Option.map_some,
      Option.getD_some, hr, if_false]
  let s₄ := { s with
    client := (c.attach s.mem r.ptr).1, mem := (c.attach s.mem r.ptr).2, caller := .fill data 0 }
  have h₄ : step s₃ (.sendStep 0) = some s₄ := rfl
  have hslen : s₄.client.slen = 8160 := rfl
  have hamt : s₄.client.sendAmt data 0 = 8160 := by
    have hplen : s₄.client.plen = 0 := hp
    rw [sendAmt, hslen, hplen, hd]
    rfl
  let m := s₄.mem.store (r.ptr + 28 + 0) ((data.drop 0).take 8160)
  let s₅ := { s₄ with client.plen := 8160, mem := m, caller := .filled data 0 8160 }
  have h₅ : step s₄ (.sendStep 0) = some s₅ := by
    have hfill : step s₄ (.sendStep 0) = some { s₄ with
        client.plen := s.client.plen + s₄.client.sendAmt data 0
        mem := s₄.mem.store (r.ptr + 28 + s.client.plen)
          ((data.drop 0).take (s₄.client.sendAmt data 0))
        caller := .filled data 0 (s₄.client.sendAmt data 0) } := rfl
    rw [hfill, hamt, hp]
  let s₆ := { s₅ with
    client := { s₄.client with buffer := s₄.client.buffer.sendComplete pktSize, plen := 0 }
    caller := .loop data 8160 }
  have h₆ : step s₅ (.sendStep 0) = some s₆ := by
    have hz : s₅.client.plen = s₅.client.slen := hslen.symm
    change some { s₅ with client := s₅.client.complete, caller := .loop data (0 + 8160) } = some s₆
    rw [complete, if_pos hz]
  have h₇ : step s₆ (.sendStep 0) = some (s₆.ret data 8160) := by
    have hend : ¬8160 < data.length := by omega
    simp only [step, sendStep, s₆, hend, if_false]
  refine ⟨s₆.ret data 8160, ?_, rfl, rfl, ?_, ?_, SocketTxBuffer.sendComplete_fifo ..,
    SocketTxBuffer.sendComplete_done .., ?_, rfl⟩
  · simp only [Sys.run, h₁, h₂, h₃, h₄, h₅, h₆, h₇, Option.bind_some]
  · simp only [ret, s₆, s₅, s₄]
  · simp only [ret, s₆, s₅, s₄]
  · change m r.ptr = 0x50
    have hbehind : r.ptr.off + 1 ≤ (r.ptr + 28 + 0).off := by
      simp only [Addr.add_off]
      omega
    refine (Mem.store_apply_of_apart (.inr (.inl hbehind))).trans ?_
    exact attach_first_byte ..

theorem pump_byte {s : TxSystem} (hp : s.pump = .idle) (hd : s.client.buffer.done = false)
    (hr : s.client.buffer.fifo.readStart = (f', some r)) (hm : 1 ≤ r.maxAmt) :
    ∃ t, Sys.run step s [.writeDataStart, .sent (.accepted 1)] = some t ∧
      t.caller = s.caller ∧ t.client.plen = s.client.plen ∧ t.pump = .sent 1 ∧
      t.wire = s.wire ++ [s.mem r.ptr] ∧ t.client.buffer.fifo = f' ∧
      t.client.buffer.done = false := by
  simp only [Sys.run, step, hp, hd, SocketTxBuffer.writeDataStart, hr, Bool.false_eq_true, if_false,
    Option.bind_some, hm, if_true, SocketTxBuffer.writeDataSent, Option.some.injEq, exists_eq_left']
  exact ⟨trivial, trivial, trivial, rfl, trivial, trivial⟩

/-- A call that takes a packet's worth of bytes and puts the packet into the ring. -/
def callPacket (data : List UInt8) : List Act :=
  [.send data, .sendStep 0, .sendStep 0, .sendStep 0, .sendStep 0, .sendStep 0, .sendStep 0]

theorem callPacket_ne_flush (data : List UInt8) : ∀ a ∈ callPacket data, a ≠ .flush := by
  simp [callPacket]

/-- What there is after such a call. -/
structure Called (data : List UInt8) (s : TxSystem) : Prop where
  taken : s.taken = data
  caller : s.caller = .idle
  pump : s.pump = .idle
  wire : s.wire = []
  fifo : s.client.buffer.fifo = .oneBlock 0x2000
  done : s.client.buffer.done = false
  first : s.mem ⟨0, 0⟩ = 0x50

theorem run_callPacket (dn : UInt8) (hlen : data.length = 8160) :
    ∃ s, Sys.run step (init dn 0x2000 2) (callPacket data) = some s ∧ Called data s := by
  have hroom : ¬(BlockFifo.new 0x2000 2).full := by decide
  obtain ⟨s, hs, hc, _, hp, hw, hf, hd, hb, hl⟩ := send_packet (s := init dn 0x2000 2)
    (r := ⟨⟨0, 0⟩, 0x2000⟩) hlen rfl rfl hroom rfl (by decide)
  refine ⟨s, hs, ?_, hc, hp, hw, hf, hd, hb⟩
  rw [taken, accepted, hl, hc, inFlight, List.append_nil]
  change ([] ++ [(data, 8160)]).flatMap _ = _
  simp only [List.nil_append, List.flatMap_singleton, ← hlen, List.take_length]

theorem Called.readStart (h : Called data s) : s.client.buffer.fifo.readStart =
    ((BlockFifo.oneBlock 0x2000).readStart.1, some ⟨⟨0, 0⟩, 0x2000⟩) :=
  (congrArg BlockFifo.readStart h.fifo).trans (BlockFifo.oneBlock_readStart _)

def pumpWhole : List Act := [.writeDataStart, .sent (.accepted 0x2000), .writeDataComplete]

theorem pump_whole {s : TxSystem} (hp : s.pump = .idle) (hd : s.client.buffer.done = false)
    (hr : s.client.buffer.fifo.readStart = (f', some r)) (hm : 0x2000 ≤ r.maxAmt) :
    ∃ t, Sys.run step s pumpWhole = some t ∧ t.wire = s.wire ++ s.mem.load r.ptr 0x2000 ∧
      t.caller = s.caller ∧ t.sends = s.sends ∧ t.pump = .idle ∧
      t.client.buffer.fifo = f'.readComplete 0x2000 := by
  let s₁ := { s with client.buffer.fifo := f', pump := .holding r }
  have h₁ : step s .writeDataStart = some s₁ := by
    simp only [step, hp, hd, SocketTxBuffer.writeDataStart, hr, Bool.false_eq_true, if_false, s₁]
  let s₂ := { s₁ with pump := .sent 0x2000, wire := s.wire ++ s.mem.load r.ptr 0x2000 }
  have h₂ : step s₁ (.sent (.accepted 0x2000)) = some s₂ := by
    simp only [step, s₁, hm, if_true, SocketTxBuffer.writeDataSent, s₂]
  let s₃ := { s₂ with client.buffer := s₂.client.buffer.writeDataComplete 0x2000, pump := .idle }
  have h₃ : step s₂ .writeDataComplete = some s₃ := by simp only [step, s₂, s₃]
  refine ⟨s₃, ?_, rfl, rfl, rfl, rfl, rfl⟩
  simp only [pumpWhole, Sys.run, h₁, h₂, h₃, Option.bind_some]

/-- The call, and the pump sends the packet. -/
def sendPacket (data : List UInt8) : List Act := callPacket data ++ pumpWhole

theorem sendPacket_ne_flush (data : List UInt8) : ∀ a ∈ sendPacket data, a ≠ .flush := by
  simp [sendPacket, callPacket, pumpWhole]

/-- What there is once a packet has been sent. -/
structure SentWhole (data : List UInt8) (s : TxSystem) : Prop where
  taken : s.taken = data
  caller : s.caller = .idle
  pump : s.pump = .idle
  wire : s.wire.length = 0x2000
  fifo : s.client.buffer.fifo = (BlockFifo.oneBlock 0x2000).readStart.1.readComplete 0x2000

theorem Called.sent (h : Called data s) :
    ∃ t, Sys.run step s pumpWhole = some t ∧ SentWhole data t := by
  obtain ⟨t, hr, hw, hc, hl, hp, hf⟩ := pump_whole h.pump h.done h.readStart (Nat.le_refl _)
  have htaken : t.taken = s.taken := by
    rw [TxSystem.taken, TxSystem.accepted, hl, hc]
    rfl
  refine ⟨t, hr, htaken.trans h.taken, hc.trans h.caller, hp, ?_, hf⟩
  rw [hw, h.wire, List.nil_append, Mem.length_load]

theorem run_sendPacket (dn : UInt8) (hlen : data.length = 8160) :
    ∃ s, Sys.run step (init dn 0x2000 2) (sendPacket data) = some s ∧ SentWhole data s := by
  obtain ⟨s, hs, h⟩ := run_callPacket dn hlen
  obtain ⟨t, ht, hsent⟩ := h.sent
  exact ⟨t, Sys.run_append_eq_some.2 ⟨s, hs, ht⟩, hsent⟩

/-- Without a `Flush` the wire carries the accepted bytes, cut into packets: what is not yet on
it is queued, or fills the open packet. A call reports at the end what it has accepted. -/
theorem wire_format {b c : Nat} (hb : 0x2000 ≤ b) (hc : 2 ≤ c) (hf : ∀ a ∈ acts, a ≠ .flush)
    (hr : Sys.run step (init dn b c) acts = some s) :
    s.wire <+: packets dn (s.taken.length / 8160) s.taken ∧
      (∃ gone, gone <+: s.wire ∧
        gone ++ (s.client.buffer.fifo.unread s.mem ++ s.client.buffer.fifo.filling s.mem) =
          packets dn (s.taken.length / 8160) s.taken) ∧
      (s.taken.length % 8160 ≠ 0 → ∃ sbuf, s.client.packet.sampleBuffer = some sbuf ∧
        s.mem.load sbuf (s.taken.length % 8160) =
          s.taken.drop (8160 * (s.taken.length / 8160))) ∧
      (∀ acts' t, (∀ a ∈ acts', a ≠ .flush) → Sys.run step s acts' = some t →
        s.taken <+: t.taken ∧ (t.caller = .idle → t.taken = t.accepted)) := by
  have hinv : Inv (init dn b c) := init_inv (Nat.lt_of_lt_of_le (by decide) hb)
    (Nat.lt_of_lt_of_le Nat.zero_lt_two hc)
  obtain ⟨hi, ⟨n, whole, part, h⟩, _⟩ := run_content hinv (init_content dn b c) hf hr
  have hlt := part_lt hi h
  have hlen : s.taken.length = 8160 * n + part.length := by
    rw [h.taken, List.length_append, h.length]
  have hdiv : s.taken.length / 8160 = n := by omega
  have hmod : s.taken.length % 8160 = part.length := by omega
  have hpk : packets dn n s.taken = packets dn n whole := by
    rw [h.taken, packets_append h.length]
  rw [hdiv, hmod, hpk]
  obtain ⟨gone, hw, hg⟩ := h.stream
  obtain ⟨hgone, hwire⟩ := hw.prefix_stream hi.fifo
  refine ⟨hg ▸ hwire, ⟨gone, hgone, hg⟩, ?_, ?_⟩
  · intro hne
    have hpart : part ≠ [] := fun he => hne (by rw [he]; rfl)
    obtain ⟨_, _, buf, payload, hb, hl, hload, htake⟩ := h.packet (attached_of_part h hpart)
    refine ⟨buf + 28, by rw [sampleBuffer, hb]; rfl, ?_⟩
    have hpay := ((load_packet_eq s.mem hl).1 hload).2.1
    have hpre : part <+: payload :=
      (htake ▸ List.prefix_append part _ : part <+: payload.take s.client.plen).trans
        (List.take_prefix ..)
    rw [← Mem.take_load s.mem (buf + 28) (Nat.le_of_lt hlt), hpay, ← h.length, h.taken,
      List.drop_left]
    exact (List.prefix_iff_eq_take.1 hpre).symm
  · intro acts' t hf' hr'
    obtain ⟨_, _, hpre⟩ := run_content hi h hf' hr'
    refine ⟨hpre, fun he => ?_⟩
    rw [taken_eq he]
    exact List.append_nil _

/-- The pump sends the first byte of a packet. -/
theorem wire_format_first_byte :
    let acts := callPacket (List.replicate 8160 7) ++ [.writeDataStart, .sent (.accepted 1)]
    ∃ s, Sys.run step (init 3 0x2000 2) acts = some s ∧ s.wire = [0x50] ∧
      s.wire <+: packets 3 (s.taken.length / 8160) s.taken := by
  intro acts
  have hlen : (List.replicate 8160 (7 : UInt8)).length = 8160 := List.length_replicate
  obtain ⟨s, hs, h⟩ := run_callPacket 3 hlen
  obtain ⟨t, ht, _, _, _, hw, _⟩ := pump_byte h.pump h.done h.readStart (by decide)
  have hrun : Sys.run step (init 3 0x2000 2) acts = some t := Sys.run_append_eq_some.2 ⟨s, hs, ht⟩
  have hf : ∀ a ∈ acts, a ≠ .flush := List.forall_mem_append.2 ⟨callPacket_ne_flush _, by simp⟩
  refine ⟨t, hrun, ?_, (wire_format (by decide) (by decide) hf hrun).1⟩
  rw [hw, h.wire, h.first]
  rfl

end TxSystem
end Avs4000
