import Avs4000.Lib.Pipe
import Avs4000.RxClose
import Avs4000.RxTags
import Avs4000.TxFlush
import Avs4000.TxWork

namespace Avs4000
open Memory Frames
set_option autoImplicit true

namespace RxSystem

/-- What the receiver meets while `rest` of the bytes `full` has yet to be sent to it. -/
def Receives (b : Nat) (full rest : List UInt8) (s : RxSystem) : Prop :=
  ∀ pkts : List (List UInt8), (∀ p ∈ pkts, p.length = 0x2000) → pkts.flatten = full →
    Flows pkts rest b s

theorem Flows.extend (h : Flows pkts (w ++ rest) b s) : Flows pkts rest b (s.extend w) := by
  refine ⟨?_, h.blocks⟩
  have he : (s.extend w).extend rest = s.extend (w ++ rest) := by
    simp only [RxSystem.extend, List.append_assoc]
  rw [he]
  exact h.delivers

theorem Receives.extend (h : Receives b full (w ++ rest) s) : Receives b full rest (s.extend w) :=
  fun pkts hp hfull => (h pkts hp hfull).extend

theorem Receives.step (h : Receives b full rest s) (hf : a ≠ .flush) (hs : s.step a = some t) :
    Receives b full rest t :=
  fun pkts hp hfull => step_flows hp (h pkts hp hfull) hf (step_cases hs)

theorem init_receives (hq : 0 < q) (hc : 0 < c) (full : List UInt8) :
    Receives (0x2000 * q) full full (init [] (0x2000 * q) c) := by
  intro pkts _ hfull
  subst hfull
  exact ⟨init_delivers hq hc, .new _ c⟩

theorem Flows.samples (hp : ∀ p ∈ pkts, p.length = 0x2000) (h : Flows pkts rest b s) :
    samplesOf s.calls <+: pkts.flatMap payloadOf := by
  obtain ⟨gone, ks, htrack, hgap⟩ := h.delivers.track
  refine List.IsPrefix.trans ?_ (htrack.initial_samples hp hgap)
  rw [log, samplesOf_append]
  exact List.prefix_append ..

/-- Nothing is queued or in flight, and no call is running. -/
structure Quiet (s : RxSystem) : Prop where
  caller : s.caller = .idle
  pump : s.pump = .idle
  incoming : s.incoming = []
  ring : s.client.buffer.fifo.unread s.mem ++ s.client.buffer.fifo.filling s.mem = []

/-- Once all packets are through, the calls have returned all their samples. -/
theorem Flows.all_samples (hp : ∀ p ∈ pkts, p.length = 0x2000) (h : Flows pkts [] b s)
    (hq : Quiet s) : samplesOf s.calls = pkts.flatMap payloadOf := by
  obtain ⟨gone, ks, htrack, hgap⟩ := h.delivers.track
  have hext : s.extend [] = s := by
    rw [RxSystem.extend, List.append_nil]
  rw [hext] at htrack
  obtain ⟨late, hlate, hq'⟩ := htrack.queue
  have hstream := htrack.stream
  rw [hq.pump] at hlate
  obtain rfl : late = [] := hlate
  rw [List.append_nil, hq.ring, List.append_nil] at hq'
  rw [hq.incoming, List.append_nil, hq'] at hstream
  have hlen := congrArg List.length hstream
  rw [length_flatten hp, hgap.1] at hlen
  have hks : ks.length = pkts.length := Nat.eq_of_mul_eq_mul_left (by decide) hlen
  have hclosed : ¬Begun s.client s.caller := by
    intro hb
    have hlt := (htrack.begun hb).1
    rw [hgap.1, hks] at hlt
    omega
  have hlog : s.log = s.calls := (log_eq hq.caller).trans (List.append_nil _)
  have hs := (htrack.closed hclosed).2
  rw [hlog] at hs
  rw [hs, hgap.2, hks, ← List.flatMap_map (pkt pkts) payloadOf, map_pkt_range (Nat.le_refl _),
    List.take_length]

end RxSystem

namespace TxSystem
open V49Packet
open TcpTxSignalClient (pktSize slen sendAmt complete)

theorem step_wire {s : TxSystem} (hs : Step s a t) : s.wire <+: t.wire := by
  cases hs with
  | accepted hp hn => exact List.prefix_append ..
  | sendStep junk hs =>
    cases hs with
    | _ => exact List.prefix_rfl
  | send | flush | startNone | startSome | again | closed | complete => exact List.prefix_rfl

/-- The packets of a stream of sample bytes, one by one. -/
def packetList (dn : UInt8) (n : Nat) (bs : List UInt8) : List (List UInt8) :=
  (List.range n).map fun k => packetBytes (wireHeader dn k) (frame 8160 bs k)

theorem flatten_packetList (dn : UInt8) (n : Nat) (bs : List UInt8) :
    (packetList dn n bs).flatten = packets dn n bs := (List.flatMap_def ..).symm

theorem length_packetList (h : 8160 * n ≤ bs.length) :
    ∀ p ∈ packetList dn n bs, p.length = 0x2000 := by
  intro p hp
  obtain ⟨k, hk, rfl⟩ := List.mem_map.1 hp
  have hle : 8160 * (k + 1) ≤ bs.length :=
    Nat.le_trans (Nat.mul_le_mul_left _ (List.mem_range.1 hk)) h
  exact length_packetBytes _ (length_frame hle)

/-- Nothing is queued or in flight, and no call is running. -/
structure Quiet (s : TxSystem) : Prop where
  caller : s.caller = .idle
  pump : s.pump = .idle
  ring : s.client.buffer.fifo.unread s.mem ++ s.client.buffer.fifo.filling s.mem = []

theorem payloadOf_packetBytes (h : V49Header) (hp : payload.length = 8160) :
    RxSystem.payloadOf (packetBytes h payload) = words payload := by
  have hd : (h.toBytes ++ (payload ++ vend)).drop 28 = payload ++ vend :=
    List.drop_left' (V49Header.length_toBytes h)
  rw [RxSystem.payloadOf, packetBytes, List.append_assoc, hd, List.take_left' hp]

/-- A receiver takes the samples out of the packets again. -/
theorem payloads_packetList (h : 8160 * n ≤ bs.length) :
    (packetList dn n bs).flatMap RxSystem.payloadOf = words (bs.take (8160 * n)) := by
  induction n with
  | zero => rfl
  | succ n ih =>
    have hn : 8160 * n ≤ bs.length := Nat.le_trans (Nat.mul_le_mul_left _ (Nat.le_succ n)) h
    have hlen : (bs.take (8160 * n)).length = 4 * (2040 * n) := by
      rw [List.length_take, Nat.min_eq_left hn]
      omega
    rw [take_succ_frame, words_append _ hlen, ← ih hn, packetList, List.range_succ, List.map_append,
      List.flatMap_append, List.map_singleton, List.flatMap_singleton,
      payloadOf_packetBytes _ (length_frame h)]
    rfl

/-- `Init` finds in the bytes a valid packet with number `k` of the device `dn`. -/
def Numbered (dn : UInt8) (k : Nat) (bs : List UInt8) : Prop :=
  ∀ (p : V49Packet) m data, Mem.load m data 0x2000 = bs →
    (p.init m data 0x2000).isValid = true ∧
      (p.init m data 0x2000).frameCount.toNat = k % 4096 ∧
      (p.init m data 0x2000).packetCount.toNat = k % 16 ∧
      (p.init m data 0x2000).streamID.toNat = dn.toNat * 65536

theorem numbered_packetBytes (dn : UInt8) (k : Nat) (hp : payload.length = 8160) :
    Numbered dn k (packetBytes (wireHeader dn k) payload) := by
  intro p m data hload
  have hheader := (init_header p m hp hload).1
  rw [← txHeader_ofNat] at hload hheader
  have hcounts := txHeader_counts dn 0 (.ofNat k) (.ofNat k)
  have hstream := txHeader_streamId dn 0 (.ofNat k) (.ofNat k)
  rw [UInt16.toNat_ofNat', UInt8.toNat_ofNat'] at hcounts
  refine ⟨init_valid p m hp hload, ?_, ?_, ?_⟩
  · rw [frameCount, hheader, hcounts.1, UInt16.toNat_ofNat']
    omega
  · rw [packetCount, hheader, hcounts.2, UInt8.toNat_ofNat']
    omega
  · rw [streamID, hheader, hstream, UInt16.toNat_zero, Nat.add_zero]

theorem tagOf_packetBytes (dn : UInt8) (k off : Nat) (hp : payload.length = 8160) :
    RxSystem.tagOf off (packetBytes (wireHeader dn k) payload) = ⟨true, off, 0, 0⟩ := by
  obtain ⟨m, data, hload⟩ := Mem.exists_load 0 (packetBytes (wireHeader dn k) payload)
  rw [length_packetBytes _ hp] at hload
  let c : TcpRxSignalClient := .new 0x2000 2
  have hheader := (init_header c.packet m hp hload).1
  have htag := RxSystem.timeTag_init c hload off
  rw [← htag, TcpRxSignalClient.timeTag, timeFraction]
  change TimeTag.mk true off (c.packet.init m data 0x2000).header.timeInt
    ((c.packet.init m data 0x2000).header.mswTimeFrac.toUInt64 <<< 32 |||
      (c.packet.init m data 0x2000).header.lswTimeFrac.toUInt64) = _
  have hfrac : (0 : UInt32).toUInt64 <<< 32 ||| (0 : UInt32).toUInt64 = 0 := by decide
  rw [hheader]
  exact congrArg (TimeTag.mk true off 0) hfrac

end TxSystem

namespace Avs4000Rx

theorem ofNat_toLE (v : UInt16) : UInt16.ofNat (ofLE (toLE 2 v.toNat)) = v := by
  rw [ofLE_toLE_of_lt v.toNat_lt, UInt16.ofNat_toNat]

theorem out_of_encoded {qint16 : α → UInt16} {input : Nat → GrComplex α}
    (h : ((ofWords samples).drop (4 * i)).take 4 = TxBlock.tBuf qint16 (input k))
    (float : UInt16 → β) :
    out float samples i = ⟨float (qint16 (input k).real), float (qint16 (input k).imag)⟩ := by
  have himag := congrArg (List.take 2) h
  have hreal := congrArg (List.drop 2) h
  rw [List.take_take, TxBlock.tBuf, List.take_left' (length_toLE ..)] at himag
  rw [List.drop_take, List.drop_drop, TxBlock.tBuf, List.drop_left' (length_toLE ..)] at hreal
  have hi : 2 * (i * 2) = 4 * i := by omega
  have hr : 2 * (i * 2 + 1) = 4 * i + 2 := by omega
  rw [out, rBuf, rBuf, hi, hr]
  replace himag : ((ofWords samples).drop (4 * i)).take 2 = _ := himag
  replace hreal : ((ofWords samples).drop (4 * i + 2)).take 2 = _ := hreal
  rw [himag, hreal, ofNat_toLE, ofNat_toLE]

end Avs4000Rx

/-- A sender whose socket is the other end of a receiver's. -/
abbrev Loopback := Pipe TxSystem RxSystem

namespace Loopback
open V49Packet (packetBytes)
open TxSystem (Content packetList wireHeader)
open RxSystem (Receives Flows samplesOf payloadOf)

abbrev Act := Pipe.Act TxSystem.Act RxSystem.Act

def init (dn : UInt8) (b c b' c' : Nat) : Loopback := ⟨.init dn b c, .init [] b' c'⟩

def step : Loopback → Act → Option Loopback :=
  Pipe.step TxSystem.step RxSystem.step (·.wire) RxSystem.extend

/-- Neither side discards what it has. -/
def NoFlush : Act → Prop
  | .sender a => a ≠ .flush
  | .receiver b => b ≠ .flush

/-- The packets made of the bytes the sender has taken flow through the receiver. -/
structure Carries (dn : UInt8) (b n : Nat) (whole part rest : List UInt8) (s : Loopback) :
    Prop where
  inv : TxSystem.Inv s.sender
  content : Content dn s.sender n whole part
  stream : (packetList dn n whole).flatten = s.sender.wire ++ rest
  flows : Flows (packetList dn n whole) rest b s.receiver

theorem run_carries {b c : Nat} (hb : 0x2000 ≤ b) (hc : 2 ≤ c) (hq : 1 ≤ q) (hc' : 2 ≤ c')
    (hf : ∀ a ∈ acts, NoFlush a)
    (hr : Sys.run step (init dn b c (0x2000 * q) c') acts = some s) :
    ∃ n whole part rest, Carries dn (0x2000 * q) n whole part rest s := by
  have hinv : TxSystem.Inv (.init dn b c) := TxSystem.init_inv
    (Nat.lt_of_lt_of_le (by decide) hb) (Nat.lt_of_lt_of_le Nat.zero_lt_two hc)
  have hsnd : ∀ a, .sender a ∈ acts → a ≠ .flush := fun a ha => hf _ ha
  obtain ⟨as, has, hrun⟩ := Pipe.run_sender hr
  obtain ⟨hi, ⟨n, whole, part, h⟩, _⟩ := TxSystem.run_content hinv (TxSystem.init_content dn b c)
    (fun a ha => hsnd a (has a ha)) hrun
  have hfed : Pipe.Fed (·.wire) (Receives (0x2000 * q)) s := by
    have hwire (u : Loopback) (a v) (_ : True) (_ : NoFlush (.sender a))
        (hs : TxSystem.step u.sender a = some v) : True ∧ u.sender.wire <+: v.wire :=
      ⟨trivial, TxSystem.step_wire (TxSystem.step_cases hs)⟩
    have hstart : Pipe.Fed (·.wire) (Receives (0x2000 * q)) (init dn b c (0x2000 * q) c') :=
      fun rest => RxSystem.init_receives hq (Nat.lt_of_lt_of_le Nat.zero_lt_two hc') rest
    exact (Pipe.run_fed (I := Receives (0x2000 * q)) (J := fun _ => True) hwire
      (fun _ _ _ _ h => h.extend) (fun _ _ _ _ _ h hb hs => h.step hb hs) trivial hstart
      (Sys.along_of_forall hf _) hr).2
  obtain ⟨gone, hw, hg⟩ := h.stream
  obtain ⟨rest, hrest⟩ := (hw.prefix_stream hi.fifo).2
  rw [hg, ← TxSystem.flatten_packetList] at hrest
  exact ⟨n, whole, part, rest, hi, h, hrest.symm,
    hfed rest _ (TxSystem.length_packetList (Nat.le_of_eq h.length.symm)) hrest.symm⟩

theorem Carries.length_whole (h : Carries dn b n whole part rest s) :
    8160 * n ≤ whole.length := Nat.le_of_eq h.content.length.symm

theorem Carries.payloads (h : Carries dn b n whole part rest s) :
    (packetList dn n whole).flatMap payloadOf = words whole := by
  rw [TxSystem.payloads_packetList h.length_whole, ← h.content.length, List.take_length]

theorem Carries.words_taken (h : Carries dn b n whole part rest s) :
    words s.sender.taken = words whole ++ words part := by
  have hlen : whole.length = 4 * (2040 * n) := by
    rw [h.content.length]
    omega
  rw [h.content.taken, words_append _ hlen]

theorem Carries.samples (h : Carries dn b n whole part rest s) :
    samplesOf s.receiver.calls <+: words whole :=
  h.payloads ▸ h.flows.samples (TxSystem.length_packetList h.length_whole)

theorem Carries.bytes_samples (h : Carries dn b n whole part rest s) :
    ofWords (samplesOf s.receiver.calls) <+: s.sender.taken := by
  have hlen : whole.length = 4 * (2040 * n) := by
    rw [h.content.length]
    omega
  obtain ⟨more, hmore⟩ := h.samples
  refine ⟨ofWords more ++ part, ?_⟩
  rw [← List.append_assoc, ← ofWords_append, hmore, ofWords_words _ hlen, h.content.taken]

theorem Carries.taken_whole (h : Carries dn b n whole part rest s) :
    s.sender.taken.take (8160 * (s.sender.taken.length / 8160)) = whole := by
  have hlt := TxSystem.part_lt h.inv h.content
  have hlen : s.sender.taken.length = 8160 * n + part.length := by
    rw [h.content.taken, List.length_append, h.content.length]
  have hdiv : s.sender.taken.length / 8160 = n := by omega
  rw [hdiv, h.content.taken, ← h.content.length, List.take_left]

/-- A sender that is quiet has put all whole packets on the wire. -/
theorem Carries.rest_of_quiet (h : Carries dn b n whole part rest s) (hq : s.sender.Quiet) :
    rest = [] := by
  obtain ⟨gone, hw, hg⟩ := h.content.stream
  have hstream := h.stream
  rw [hq.pump] at hw
  obtain rfl : s.sender.wire = gone := hw
  rw [hq.ring, List.append_nil, ← TxSystem.flatten_packetList, hstream] at hg
  exact List.self_eq_append_right.1 hg

theorem run_sender (hr : Sys.run TxSystem.step s as = some t) (r : RxSystem) :
    Sys.run step ⟨s, r⟩ (as.map .sender) =
      some ⟨t, RxSystem.extend (t.wire.drop s.wire.length) r⟩ := by
  have hwires (u : TxSystem) (a v) (_ : True) (hs : TxSystem.step u a = some v) :
      True ∧ u.wire <+: v.wire := ⟨trivial, TxSystem.step_wire (TxSystem.step_cases hs)⟩
  have hnil (r : RxSystem) : r.extend [] = r := by rw [RxSystem.extend, List.append_nil]
  have hfeed (w v : List UInt8) (r : RxSystem) : (r.extend w).extend v = r.extend (w ++ v) := by
    simp only [RxSystem.extend, List.append_assoc]
  exact (Pipe.run_map_sender hwires hnil hfeed trivial hr r).2

/-- A packet is sent and received, and a call takes it whole. -/
def wholePacket (data : List UInt8) : List Act :=
  (TxSystem.sendPacket data).map .sender ++
    (RxSystem.pumpPacket ++ RxSystem.receivePacket).map .receiver

theorem wholePacket_noFlush (data : List UInt8) : ∀ a ∈ wholePacket data, NoFlush a := by
  intro a ha
  rcases List.mem_append.1 ha with ha | ha
  · obtain ⟨b, hb, rfl⟩ := List.mem_map.1 ha
    exact TxSystem.sendPacket_ne_flush _ b hb
  · obtain ⟨b, hb, rfl⟩ := List.mem_map.1 ha
    revert b
    simp [RxSystem.pumpPacket, RxSystem.receivePacket, NoFlush]

/-- What there is once the packet is through. -/
structure Whole (data : List UInt8) (s : Loopback) : Prop where
  taken : s.sender.taken = data
  sender : s.sender.Quiet
  receiver : s.receiver.Quiet
  parsed : s.receiver.parsed.length = 1
  calls : ∃ ws tag, ws.length = 2040 ∧ s.receiver.calls = [⟨2041, ws, [tag]⟩]

theorem passed_empty (m : Mem UInt8) :
    let f := (BlockFifo.oneBlock 0x2000).readStart.1.readComplete 0x2000
    f.unread m ++ f.filling m = [] := by
  intro f
  obtain ⟨_, ho, hc⟩ := BlockFifo.oneBlock_readComplete 0x2000
  exact (List.append_nil _).symm.trans (RxSystem.content_empty ho hc m)

theorem run_wholePacket (dn : UInt8) (hlen : data.length = 8160) :
    ∃ s, Sys.run step (init dn 0x2000 2 (0x2000 * 1) 2) (wholePacket data) = some s ∧
      Whole data s := by
  obtain ⟨t, ht, hsent⟩ := TxSystem.run_sendPacket dn hlen
  have hsnd : Sys.run step (init dn 0x2000 2 (0x2000 * 1) 2)
      ((TxSystem.sendPacket data).map .sender) =
        some ⟨t, RxSystem.extend (t.wire.drop 0) (.init [] (0x2000 * 1) 2)⟩ :=
    run_sender ht _
  have hstart : RxSystem.extend (t.wire.drop 0) (.init [] (0x2000 * 1) 2) =
      .init [t.wire].flatten (0x2000 * 1) 2 := by
    rw [List.drop_zero, List.flatten_singleton]
    rfl
  obtain ⟨r, hr, ha⟩ := RxSystem.run_pumpPacket hsent.wire
  obtain ⟨u, hu, h⟩ := RxSystem.receive_whole ha.caller ha.partialCount ha.not_empty ha.readStart
    (BlockFifo.oneBlock_readComplete _).1
  have hrcv := Sys.run_append_eq_some.2 ⟨r, hr, hu⟩
  rw [← hstart] at hrcv
  refine ⟨⟨t, u⟩, Sys.run_append_eq_some.2 ⟨_, hsnd, Pipe.run_map_receiver hrcv t⟩, hsent.taken,
    ⟨hsent.caller, hsent.pump, ?_⟩, ⟨h.caller, h.pump.trans ha.pump, h.incoming.trans ha.incoming,
    ?_⟩, ?_, ?_⟩
  · rw [hsent.fifo]
    exact passed_empty _
  · rw [h.fifo]
    exact passed_empty _
  · rw [h.parsed, ha.parsed]
    rfl
  · obtain ⟨ws, tag, hws, hcalls⟩ := h.calls
    exact ⟨ws, tag, hws, hcalls.trans (congrArg (· ++ _) ha.calls)⟩

/-- Every item differs from the others, and its two words from each other. -/
def countItems (k : Nat) : GrComplex Nat := ⟨k, k + 5000⟩

def countBytes : List UInt8 := TxFlow.encoded UInt16.ofNat countItems 2040

theorem length_countBytes : countBytes.length = 8160 := TxFlow.length_encoded 2040

/-- The receiver's calls return the samples that the sender's took, in order, with none made up,
and when all is quiet none of a whole packet is missing. -/
theorem samples_through {b c : Nat} (hb : 0x2000 ≤ b) (hc : 2 ≤ c) (hq : 1 ≤ q) (hc' : 2 ≤ c')
    (hf : ∀ a ∈ acts, NoFlush a)
    (hr : Sys.run step (init dn b c (0x2000 * q) c') acts = some s) :
    samplesOf s.receiver.calls <+: words s.sender.taken ∧
      (s.sender.Quiet → s.receiver.Quiet → samplesOf s.receiver.calls =
        words (s.sender.taken.take (8160 * (s.sender.taken.length / 8160)))) := by
  obtain ⟨n, whole, part, rest, h⟩ := run_carries hb hc hq hc' hf hr
  have hp : ∀ p ∈ packetList dn n whole, p.length = 0x2000 :=
    TxSystem.length_packetList h.length_whole
  constructor
  · rw [h.words_taken]
    exact h.samples.trans (List.prefix_append ..)
  · intro hs hrcv
    have hflows := h.flows
    rw [h.rest_of_quiet hs] at hflows
    rw [h.taken_whole, hflows.all_samples hp hrcv, h.payloads]

theorem Carries.pkt (h : Carries dn b n whole part rest s) (hk : k < n) :
    RxSystem.pkt (packetList dn n whole) k =
      packetBytes (wireHeader dn k) (frame 8160 s.sender.taken k) := by
  have hle : 8160 * (k + 1) ≤ whole.length :=
    Nat.le_trans (Nat.mul_le_mul_left _ hk) h.length_whole
  have hlen : k < (packetList dn n whole).length := by
    rwa [packetList, List.length_map, List.length_range]
  rw [h.content.taken, frame_append_left hle, RxSystem.pkt,
    List.getD_eq_getElem?_getD, List.getElem?_eq_getElem hlen, Option.getD_some]
  simp only [packetList, List.getElem_map, List.getElem_range]

theorem Carries.length_taken (h : Carries dn b n whole part rest s) (hk : m ≤ n) :
    8160 * m ≤ s.sender.taken.length := by
  rw [h.content.taken, List.length_append, h.content.length]
  exact Nat.le_add_right_of_le (Nat.mul_le_mul_left _ hk)

theorem samples_through_one : ∃ s,
    Sys.run step (init 3 0x2000 2 (0x2000 * 1) 2) (wholePacket countBytes) = some s ∧
      (samplesOf s.receiver.calls).length = 2040 ∧
      samplesOf s.receiver.calls = words countBytes := by
  obtain ⟨s, hs, h⟩ := run_wholePacket 3 length_countBytes
  obtain ⟨_, hall⟩ := samples_through (Nat.le_refl _) (Nat.le_refl 2) (Nat.le_refl 1)
    (Nat.le_refl 2) (wholePacket_noFlush _) hs
  obtain ⟨ws, tag, hws, hcalls⟩ := h.calls
  refine ⟨s, hs, ?_, ?_⟩
  · rw [hcalls, samplesOf, List.flatMap_singleton, hws]
  · rw [hall h.sender h.receiver, h.taken, length_countBytes]
    exact congrArg words (List.take_of_length_le (Nat.le_of_eq length_countBytes))

theorem encoded_frame (qint16 : α → UInt16) (input : Nat → GrComplex α) (hk : k < n) :
    frame 4 (TxFlow.encoded qint16 input n) k = TxBlock.tBuf qint16 (input k) := by
  have hlen : ∀ p ∈ (List.range n).map fun i => TxBlock.tBuf qint16 (input i), p.length = 4 := by
    intro p hp
    obtain ⟨i, _, rfl⟩ := List.mem_map.1 hp
    rw [TxBlock.tBuf, List.length_append, length_toLE, length_toLE]
  have hk' : k < ((List.range n).map fun i => TxBlock.tBuf qint16 (input i)).length := by
    rwa [List.length_map, List.length_range]
  rw [TxFlow.encoded, List.flatMap_def, frame_flatten hlen hk', List.getElem_map,
    List.getElem_range]

/-- If the sender is given the items of a flowgraph, the receiver puts out the items of that
flowgraph, each rounded once, from the first on and with none left out. -/
theorem items_through {b c : Nat} (hb : 0x2000 ≤ b) (hc : 2 ≤ c) (hq : 1 ≤ q) (hc' : 2 ≤ c')
    (hf : ∀ a ∈ acts, NoFlush a)
    (hr : Sys.run step (init dn b c (0x2000 * q) c') acts = some s)
    (qint16 : α → UInt16) (float : UInt16 → β) (input : Nat → GrComplex α)
    (hin : s.sender.taken <+: TxFlow.encoded qint16 input n)
    (hcall : s.receiver.calls = before ++ call :: after) (hi : i < call.samples.length) :
    let k := (samplesOf before).length + i
    Avs4000Rx.out float call.samples i =
      ⟨float (qint16 (input k).real), float (qint16 (input k).imag)⟩ := by
  intro k
  obtain ⟨m, whole, part, rest, h⟩ := run_carries hb hc hq hc' hf hr
  have hbytes := h.bytes_samples.trans hin
  have hlen := hbytes.length_le
  rw [hcall, RxSystem.samplesOf_append, RxSystem.samplesOf, RxSystem.samplesOf, List.flatMap_cons,
    ← RxSystem.samplesOf, ← RxSystem.samplesOf, ofWords_append, ofWords_append] at hbytes hlen
  obtain ⟨tail, htail⟩ := hbytes
  rw [List.length_append, List.length_append, length_ofWords, length_ofWords,
    TxFlow.length_encoded, TxBlock.bytesPerSample] at hlen
  have hk : k < n := by omega
  apply Avs4000Rx.out_of_encoded
  have hframe := encoded_frame qint16 input hk
  have hleft : 4 * (i + 1) ≤ (ofWords call.samples).length := by
    rw [length_ofWords]
    exact Nat.mul_le_mul_left _ hi
  rw [← htail, List.append_assoc, frame_append_right (length_ofWords _), List.append_assoc,
    frame_append_left hleft] at hframe
  exact hframe

theorem items_through_one : ∃ s ws tag,
    Sys.run step (init 3 0x2000 2 (0x2000 * 1) 2) (wholePacket countBytes) = some s ∧
      s.receiver.calls = [⟨2041, ws, [tag]⟩] ∧
      Avs4000Rx.out (·.toNat) ws 0 = ⟨0, 5000⟩ ∧ Avs4000Rx.out (·.toNat) ws 1 = ⟨1, 5001⟩ ∧
      Avs4000Rx.out (·.toNat) ws 2039 = ⟨2039, 7039⟩ := by
  obtain ⟨s, hs, h⟩ := run_wholePacket 3 length_countBytes
  obtain ⟨ws, tag, hws, hcalls⟩ := h.calls
  have hin : s.sender.taken <+: countBytes := h.taken ▸ List.prefix_rfl
  have hsplit : s.receiver.calls = [] ++ ⟨2041, ws, [tag]⟩ :: [] := hcalls
  have hitems (i : Nat) (hi : i < ws.length) := items_through (Nat.le_refl _) (Nat.le_refl 2)
    (Nat.le_refl 1) (Nat.le_refl 2) (wholePacket_noFlush _) hs UInt16.ofNat UInt16.toNat countItems
    hin hsplit hi
  rw [hws] at hitems
  exact ⟨s, ws, tag, hs, hcalls, hitems 0 (by decide), hitems 1 (by decide),
    hitems 2039 (by decide)⟩

/-- The receiver parses the packets that the sender has made, in their order, each of them as a
valid one with its number, and returns a tag without a time for each that is begun. -/
theorem packets_through {b c : Nat} (hb : 0x2000 ≤ b) (hc : 2 ≤ c) (hq : 1 ≤ q) (hc' : 2 ≤ c')
    (hf : ∀ a ∈ acts, NoFlush a)
    (hr : Sys.run step (init dn b c (0x2000 * q) c') acts = some s) :
    s.receiver.parsed = packetList dn s.receiver.parsed.length s.sender.taken ∧
      8160 * s.receiver.parsed.length ≤ s.sender.taken.length ∧
      (∀ (k : Nat) bs, s.receiver.parsed[k]? = some bs → TxSystem.Numbered dn k bs) ∧
      RxSystem.callTags 0 s.receiver.calls =
        (List.range (((samplesOf s.receiver.calls).length + 2039) / 2040)).map fun k =>
          ⟨true, 2040 * k, 0, 0⟩ := by
  obtain ⟨n, whole, part, rest, h⟩ := run_carries hb hc hq hc' hf hr
  have hp : ∀ p ∈ packetList dn n whole, p.length = 0x2000 :=
    TxSystem.length_packetList h.length_whole
  have hn : (packetList dn n whole).length = n := by
    rw [packetList, List.length_map, List.length_range]
  obtain ⟨m, hm, hparsed⟩ := h.flows.delivers.parsed hp
  replace hparsed : s.receiver.parsed = (List.range m).map (RxSystem.pkt (packetList dn n whole)) :=
    hparsed
  rw [hn] at hm
  have hlist : s.receiver.parsed = packetList dn m s.sender.taken := by
    rw [hparsed]
    exact List.map_congr_left fun k hk => h.pkt (Nat.lt_of_lt_of_le (List.mem_range.1 hk) hm)
  have hlen : s.receiver.parsed.length = m := by
    rw [hlist, packetList, List.length_map, List.length_range]
  rw [hlen]
  refine ⟨hlist, h.length_taken hm, ?_, ?_⟩
  · intro k bs hk
    rw [hlist, packetList, List.getElem?_map] at hk
    obtain ⟨j, hj, rfl⟩ := Option.map_eq_some_iff.1 hk
    obtain ⟨hlt, rfl⟩ := List.getElem?_eq_some_iff.1 hj
    rw [List.length_range] at hlt
    rw [List.getElem_range]
    have hle := h.length_taken (Nat.le_trans hlt hm)
    exact TxSystem.numbered_packetBytes dn k (length_frame hle)
  · have htags : RxSystem.callTags 0 s.receiver.calls =
        RxSystem.tagsFor (packetList dn n whole) _ :=
      h.flows.delivers.tags
    rw [htags, RxSystem.tagsFor]
    apply List.map_congr_left
    intro k hk
    have hret := h.flows.delivers.returned_le
    rw [h.flows.delivers.length_returned] at hret
    have hkm : k < n := by
      have hkr := List.mem_range.1 hk
      have hpl : (s.receiver.extend rest).parsed.length = m := hlen
      omega
    rw [h.pkt hkm]
    exact TxSystem.tagOf_packetBytes dn k _ (length_frame (h.length_taken hkm))

theorem packets_through_one : ∃ s,
    Sys.run step (init 3 0x2000 2 (0x2000 * 1) 2) (wholePacket countBytes) = some s ∧
      s.receiver.parsed = packetList 3 1 countBytes ∧
      (∀ (k : Nat) bs, s.receiver.parsed[k]? = some bs → TxSystem.Numbered 3 k bs) ∧
      RxSystem.callTags 0 s.receiver.calls = [⟨true, 0, 0, 0⟩] := by
  obtain ⟨s, hs, h⟩ := run_wholePacket 3 length_countBytes
  obtain ⟨hparsed, _, hnum, htags⟩ := packets_through (Nat.le_refl _) (Nat.le_refl 2)
    (Nat.le_refl 1) (Nat.le_refl 2) (wholePacket_noFlush _) hs
  rw [h.parsed, h.taken] at hparsed
  obtain ⟨ws, tag, hws, hcalls⟩ := h.calls
  refine ⟨s, hs, hparsed, hnum, htags.trans ?_⟩
  rw [hcalls, samplesOf, List.flatMap_singleton, hws]
  rfl

end Loopback
end Avs4000
