import Avs4000.Lib.Frames
import Avs4000.RxInvariant

namespace Avs4000
namespace RxSystem
open Memory Frames
open BlockFifo hiding count
open TcpRxSignalClient (pktSize receiveAmt complete)
set_option autoImplicit true

/-- Word `j` of a packet. -/
def wordAt (p : List UInt8) (j : Nat) : UInt32 := UInt32.ofNat (ofLE ((p.drop (4 * j)).take 4))

/-- The samples of a packet. -/
def payloadOf (p : List UInt8) : List UInt32 := words ((p.drop 28).take 8160)

/-- The tag of a packet whose first sample is sample `off`. -/
def tagOf (off : Nat) (p : List UInt8) : TimeTag where
  valid := true
  offset := off
  timeInt := wordAt p 4
  timeFrac := (wordAt p 5).toUInt64 <<< 32 ||| (wordAt p 6).toUInt64

/-- The tags of packets that follow each other from sample `off` on. -/
def tagsOf : Nat → List (List UInt8) → List TimeTag
  | _, [] => []
  | off, p :: ps => tagOf off p :: tagsOf (off + 2040) ps

def samplesOf (calls : List ReceiveCall) : List UInt32 := calls.flatMap (·.samples)

/-- The tags of a list of calls, counted from the first sample of the first call. -/
def callTags : Nat → List ReceiveCall → List TimeTag
  | _, [] => []
  | n, c :: cs =>
    c.tList.map (fun t => { t with offset := n + t.offset }) ++ callTags (n + c.samples.length) cs

/-- The call that is running, with what it has got so far. -/
def running : ReceivePc → List ReceiveCall
  | .idle | .fault => []
  | .loop count _ samples tList | .ready count _ samples tList | .copy count _ samples tList
  | .copied count _ samples tList _ => [⟨count, samples, tList⟩]

def log (s : RxSystem) : List ReceiveCall := s.calls ++ running s.caller

/-- A packet is parsed and not yet completed. -/
def Begun (c : TcpRxSignalClient) : ReceivePc → Prop
  | .copy .. | .copied .. => True
  | _ => c.partialCount ≠ 0

/-- What the pump has received and not yet completed. A `Flush` discards it. -/
def PumpGot (f : BlockFifo) (m : Mem UInt8) (late : List UInt8) : ReadDataPc → Prop
  | .idle | .holding _ => late = []
  | .got rval => f.outBlk = none ∧ late = [] ∨
      ∃ r, f.Writing r ∧ rval ≤ r.maxAmt ∧ late = m.load r.ptr rval

/-- The part of the stream that is through, in front of what is queued, ends a packet. Otherwise
nothing is queued, and the pump is in `::recv` for a discarded region or has stopped. -/
def Boundary (b : SocketRxBuffer) (pump : ReadDataPc) (n : Nat) : Prop :=
  n % 0x2000 = 0 ∨
    b.fifo.outBlk = none ∧ b.fifo.count = 0 ∧ (b.done = true ∨ ∃ r, pump = .holding r)

/-- When a step cannot lose the packet boundary. A `Flush` may come between packets handed out,
when the bytes received end a packet, or while the pump is in `::recv`, or after it has stopped.
If it came during a `::recv`, that `::recv` brings the bytes received to the end of a packet. -/
def KeepsBoundary (s : RxSystem) : Act → Prop
  | .flush => s.client.partialCount = 0 ∧
      (s.client.buffer.done = true ∨ s.received.length % 0x2000 = 0 ∨ ∃ r, s.pump = .holding r)
  | .got .again => s.client.buffer.fifo.outBlk = none → s.received.length % 0x2000 = 0
  | .got (.data (n + 1)) =>
    s.client.buffer.fifo.outBlk = none → (s.received.length + (n + 1)) % 0x2000 = 0
  | _ => True

/-- No packet is passed over. -/
def Gapless (gone : List UInt8) (ks : List Nat) : Prop :=
  gone.length = 0x2000 * ks.length ∧ ks = List.range ks.length

/-- The pump is not in `::recv` for a region a `Flush` discarded. -/
def Live (s : RxSystem) : Prop := ∀ r, s.pump = .holding r → s.client.buffer.fifo.outBlk ≠ none

section
variable (pkts : List (List UInt8))

def pkt (k : Nat) : List UInt8 := pkts.getD k []

/-- The packets `ks` are handed out, and the one at the end of `gone` is when it is begun. -/
structure Track (s : RxSystem) (gone : List UInt8) (ks : List Nat) : Prop where
  stream : s.received ++ s.incoming = pkts.flatten
  queue : ∃ late, PumpGot s.client.buffer.fifo s.mem late s.pump ∧ s.received =
    gone ++ (s.client.buffer.fifo.unread s.mem ++ s.client.buffer.fifo.filling s.mem ++ late)
  boundary : Boundary s.client.buffer s.pump gone.length
  sorted : ks.Pairwise (· < ·)
  before : ∀ k ∈ ks, 0x2000 * (k + 1) ≤ gone.length
  closed : ¬Begun s.client s.caller →
    s.parsed = ks.map (pkt pkts) ∧ samplesOf s.log = ks.flatMap fun k => payloadOf (pkt pkts k)
  begun : Begun s.client s.caller →
    gone.length / 0x2000 < pkts.length ∧ s.parsed = (ks ++ [gone.length / 0x2000]).map (pkt pkts) ∧
      samplesOf s.log = (ks.flatMap fun k => payloadOf (pkt pkts k)) ++
        (payloadOf (pkt pkts (gone.length / 0x2000))).take s.client.partialCount
  tags : callTags 0 s.log = tagsOf 0 s.parsed

end

theorem tagsOf_append (off : Nat) (ps qs : List (List UInt8)) :
    tagsOf off (ps ++ qs) = tagsOf off ps ++ tagsOf (off + 2040 * ps.length) qs := by
  induction ps generalizing off with
  | nil => rfl
  | cons p ps ih =>
    rw [List.cons_append, tagsOf, ih, tagsOf, List.cons_append, List.length_cons, Nat.mul_succ,
      Nat.add_assoc off, Nat.add_comm 2040]

theorem callTags_append (n : Nat) (cs ds : List ReceiveCall) :
    callTags n (cs ++ ds) = callTags n cs ++ callTags (n + (samplesOf cs).length) ds := by
  induction cs generalizing n with
  | nil => rfl
  | cons c cs ih =>
    rw [List.cons_append, callTags, ih, callTags, List.append_assoc, samplesOf, samplesOf,
      List.flatMap_cons, List.length_append, Nat.add_assoc]

theorem callTags_single (n : Nat) (c : ReceiveCall) :
    callTags n [c] = c.tList.map fun t => { t with offset := n + t.offset } := List.append_nil _

theorem samplesOf_append (cs ds : List ReceiveCall) :
    samplesOf (cs ++ ds) = samplesOf cs ++ samplesOf ds := List.flatMap_append

theorem samplesOf_single (calls : List ReceiveCall) (c : ReceiveCall) :
    samplesOf (calls ++ [c]) = samplesOf calls ++ c.samples := by
  rw [samplesOf_append, samplesOf, samplesOf, List.flatMap_singleton]

theorem length_payloadOf (h : p.length = 0x2000) : (payloadOf p).length = 2040 := by
  apply length_words
  rw [List.length_take, List.length_drop, h]
  rfl

theorem loadWord_eq_wordAt {m : Mem UInt8} (h : m.load a 0x2000 = p) (hj : 4 * j + 4 ≤ 0x2000) :
    m.loadWord (a + 4 * j) = wordAt p j := by
  rw [wordAt, ← h, Mem.drop_load m a (by omega), Mem.take_load m _ (by omega), Mem.loadWord]

theorem loadWords_eq_payloadOf {m : Mem UInt8} (h : m.load a 0x2000 = p) :
    m.loadWords (a + 28) 2040 = payloadOf p := by
  rw [payloadOf, ← h, Mem.drop_load m a (by decide), Mem.take_load m _ (by decide), Mem.loadWords]

theorem timeTag_init (c : TcpRxSignalClient) (h : m.load a 0x2000 = p) (recv : Nat) :
    TcpRxSignalClient.timeTag { c with packet := c.packet.init m a pktSize } recv =
      tagOf recv p := by
  have h₄ := loadWord_eq_wordAt (j := 4) h (by decide)
  have h₅ := loadWord_eq_wordAt (j := 5) h (by decide)
  have h₆ := loadWord_eq_wordAt (j := 6) h (by decide)
  rw [tagOf, ← h₄, ← h₅, ← h₆]
  rfl

section
variable {pkts : List (List UInt8)}

/-- What the consumer sees at the front of the ring is the next packet of the stream. -/
theorem front_packet {f : BlockFifo} (hp : ∀ p ∈ pkts, p.length = 0x2000) (hi : f.Inv)
    (hb : WholeBlocks f) (hr : f.Reading r) (hg : gone.length % 0x2000 = 0)
    (hs : gone ++ (f.unread m ++ rest) = pkts.flatten) :
    gone.length / 0x2000 < pkts.length ∧
      m.load r.ptr 0x2000 = pkt pkts (gone.length / 0x2000) := by
  have hmax : 0x2000 ≤ r.maxAmt := hb.reading hi hr
  have hpre := (List.take_prefix 0x2000 _).trans (hr.prefix_unread hi m)
  rw [Mem.take_load m _ hmax] at hpre
  obtain ⟨more, hmore⟩ := hpre
  have hlen : gone.length = 0x2000 * (gone.length / 0x2000) := by omega
  have hk : gone.length / 0x2000 < pkts.length := by
    have hl := congrArg List.length hs
    rw [length_flatten hp, ← hmore] at hl
    simp only [List.length_append, Mem.length_load] at hl
    omega
  have hf := frame_append_right hlen (f.unread m ++ rest) 0
  rw [Nat.add_zero, hs, ← hmore, List.append_assoc, frame_zero (Mem.length_load ..),
    frame_flatten hp hk] at hf
  refine ⟨hk, hf.symm.trans ?_⟩
  rw [pkt, List.getD_eq_getElem?_getD, List.getElem?_eq_getElem hk, Option.getD_some]

/-- A step that leaves the packet, the memory and the counts of the log alone keeps track if it
keeps the queue. -/
theorem Track.move {b : SocketRxBuffer} (h : Track pkts s gone ks)
    (hl : samplesOf (log { s with caller := pc, calls := calls' }) = samplesOf s.log)
    (ht : callTags 0 (log { s with caller := pc, calls := calls' }) = callTags 0 s.log)
    (ha : Begun s.client pc ↔ Begun s.client s.caller)
    (hq : ∃ late, PumpGot b.fifo s.mem late p ∧
      s.received = gone ++ (b.fifo.unread s.mem ++ b.fifo.filling s.mem ++ late))
    (hb : Boundary b p gone.length) :
    Track pkts { s with client.buffer := b, caller := pc, pump := p, calls := calls' } gone ks where
  stream := h.stream
  queue := hq
  boundary := hb
  sorted := h.sorted
  before := h.before
  closed hn := ⟨(h.closed fun hp => hn (ha.2 hp)).1, hl.trans (h.closed fun hp => hn (ha.2 hp)).2⟩
  begun hn := by
    obtain ⟨hk, hpk, hs⟩ := h.begun (ha.1 hn)
    exact ⟨hk, hpk, hl.trans hs⟩
  tags := ht.trans h.tags

theorem Track.goto (h : Track pkts s gone ks)
    (hl : log { s with caller := pc, calls := calls' } = s.log)
    (ha : Begun s.client pc ↔ Begun s.client s.caller) :
    Track pkts { s with caller := pc, calls := calls' } gone ks :=
  h.move (congrArg samplesOf hl) (congrArg (callTags 0) hl) ha h.queue h.boundary

theorem log_eq {s : RxSystem} (h : s.caller = pc) : s.log = s.calls ++ running pc := by rw [log, h]

theorem log_ret (s : RxSystem) (count recv : Nat) {samples : List UInt32} (tList : List TimeTag)
    (h : samples.length = recv) :
    (s.ret count recv samples tList).log = s.calls ++ [⟨count, samples, tList⟩] := by
  rw [log, ret, running, List.append_nil, ← h, List.take_length]

theorem PumpGot.consumer {f f' : BlockFifo} (h : PumpGot f m late pc) (hk : KeepsWriting f f') :
    PumpGot f' m late pc := by
  cases pc with
  | idle => exact h
  | holding r => exact h
  | got rval =>
    exact h.imp (fun ⟨ho, hl⟩ => ⟨hk.outBlk.trans ho, hl⟩)
      fun ⟨r, hr, hle⟩ => ⟨r, hk.writing r hr, hle⟩

theorem Boundary.consumer {b b' : SocketRxBuffer} (h : Boundary b pc n)
    (hk : KeepsWriting b.fifo b'.fifo) (hd : b'.done = b.done) : Boundary b' pc n :=
  h.imp_right fun ⟨ho, hc, hp⟩ =>
    ⟨hk.outBlk.trans ho, Nat.eq_zero_of_le_zero (hc ▸ hk.count), hd.symm ▸ hp⟩

theorem Boundary.aligned {b : SocketRxBuffer} (h : Boundary b pc n) (hc : 0 < b.fifo.count) :
    n % 0x2000 = 0 := h.resolve_right fun ⟨_, hz, _⟩ => absurd hz (Nat.ne_of_gt hc)

theorem Boundary.running {b : SocketRxBuffer} (h : Boundary b pc n) (hd : b.done ≠ true)
    (hp : ∀ r, pc ≠ .holding r) : n % 0x2000 = 0 := by
  refine h.resolve_right ?_
  rintro ⟨_, _, hd' | ⟨r, hr⟩⟩
  · exact hd hd'
  · exact hp r hr

theorem pkt_length (hp : ∀ p ∈ pkts, p.length = 0x2000) (hk : k < pkts.length) :
    (pkt pkts k).length = 0x2000 := by
  rw [pkt, List.getD_eq_getElem?_getD, List.getElem?_eq_getElem hk, Option.getD_some]
  exact hp _ (List.getElem_mem hk)

theorem Track.ks_lt (hp : ∀ p ∈ pkts, p.length = 0x2000) (h : Track pkts s gone ks) :
    ∀ k ∈ ks, k < pkts.length := by
  intro k hk
  obtain ⟨late, _, hq⟩ := h.queue
  have hl := congrArg List.length h.stream
  have hb := h.before k hk
  rw [length_flatten hp, hq] at hl
  simp only [List.length_append] at hl
  omega

theorem Track.length_payloads (hp : ∀ p ∈ pkts, p.length = 0x2000) (h : Track pkts s gone ks) :
    (ks.flatMap fun k => payloadOf (pkt pkts k)).length = 2040 * ks.length := by
  have hall : ∀ ws ∈ ks.map fun k => payloadOf (pkt pkts k), ws.length = 2040 := by
    intro ws hw
    obtain ⟨k, hk, rfl⟩ := List.mem_map.1 hw
    exact length_payloadOf (pkt_length hp (h.ks_lt hp k hk))
  rw [List.flatMap_def, length_flatten hall, List.length_map]

theorem callTags_tag (calls : List ReceiveCall) (count : Nat) (samples : List UInt32)
    (tList : List TimeTag) (t : TimeTag) :
    callTags 0 (calls ++ [⟨count, samples, tList ++ [t]⟩]) =
      callTags 0 (calls ++ [⟨count, samples, tList⟩]) ++
        [{ t with offset := (samplesOf calls).length + t.offset }] := by
  rw [callTags_append, callTags_append, callTags_single, callTags_single, List.map_append,
    List.append_assoc, Nat.zero_add]
  rfl

theorem Track.front (hp : ∀ p ∈ pkts, p.length = 0x2000) (hi : Inv s) (h : Track pkts s gone ks)
    (hr : s.client.buffer.fifo.Reading r) :
    s.mem.load r.ptr 0x2000 = pkt pkts (gone.length / 0x2000) := by
  obtain ⟨late, _, hq⟩ := h.queue
  have hstream := h.stream
  rw [hq] at hstream
  simp only [List.append_assoc] at hstream
  have hg := h.boundary.aligned (hi.fifo.inn _ hr.1).2
  exact (front_packet hp hi.fifo hi.blocks hr hg hstream).2

theorem track_parse (hp : ∀ p ∈ pkts, p.length = 0x2000) (hi : Inv s) (h : Track pkts s gone ks)
    (hc : s.caller = .ready count recv samples tList)
    (hr : s.client.buffer.fifo.readStart = (f', some r)) (hk : c = { s.client with
      buffer.fifo := f', packet := s.client.packet.init s.mem r.ptr pktSize }) :
    Track pkts { s with
      client := c, caller := .copy count recv samples (tList ++ [c.timeTag recv])
      parsed := s.parsed ++ [s.mem.load r.ptr pktSize] } gone ks := by
  have hcaller := hi.caller
  rw [hc] at hcaller
  obtain ⟨hl, hlt, hz, hpos⟩ := hcaller
  have hnot : ¬Begun s.client s.caller := by
    rw [hc]
    exact fun hne => hne hz
  obtain ⟨hparsed, hsamples⟩ := h.closed hnot
  subst hk
  have hk := keepsWriting_readStart hi.fifo hr
  have hreading := (readStart_cases hi.fifo hr).2.2
  have hu := readStart_unread hi.fifo hr s.mem
  have hfill := (readStart_same hi.fifo hr).filling hi.fifo s.mem
  obtain ⟨late, hgot, hq⟩ := h.queue
  rw [← hu, ← hfill] at hq
  have hstream := h.stream
  rw [hq] at hstream
  simp only [List.append_assoc] at hstream
  obtain ⟨hk', hload⟩ := front_packet hp hk.inv (hi.blocks.readStart hi.fifo hr) hreading
    (h.boundary.aligned hpos) hstream
  have hlog : s.log = s.calls ++ [⟨count, samples, tList⟩] := log_eq hc
  rw [hlog, samplesOf_single] at hsamples
  have hcount : (samplesOf s.calls).length + recv = 2040 * s.parsed.length := by
    rw [hparsed, List.length_map, ← h.length_payloads hp, ← hsamples, List.length_append, hl]
  have htag := timeTag_init { s.client with buffer.fifo := f' } hload recv
  exact
    { stream := h.stream
      queue := ⟨late, hgot.consumer hk, hq⟩
      boundary := h.boundary.consumer hk rfl
      sorted := h.sorted
      before := h.before
      closed := fun hn => absurd trivial hn
      begun := fun _ => by
        refine ⟨hk', ?_, (samplesOf_single ..).trans ?_⟩
        · rw [List.map_append, ← hparsed]
          exact congrArg (fun p => s.parsed ++ [p]) hload
        · change samplesOf s.calls ++ samples = _ ++ List.take s.client.partialCount _
          rw [hz, List.take_zero, List.append_nil, ← hsamples]
      tags := by
        have hshift := congrArg
          (fun t : TimeTag => [{ t with offset := (samplesOf s.calls).length + t.offset }]) htag
        change callTags 0 (s.calls ++ [⟨count, samples, tList ++ [_]⟩]) =
          tagsOf 0 (s.parsed ++ [s.mem.load r.ptr 0x2000])
        rw [callTags_tag, tagsOf_append, ← hlog, h.tags, hload, Nat.zero_add, ← hcount]
        exact congrArg (tagsOf 0 s.parsed ++ ·) hshift }

theorem track_copy (hp : ∀ p ∈ pkts, p.length = 0x2000) (hi : Inv s) (h : Track pkts s gone ks)
    (hc : s.caller = .copy count recv samples tList)
    (hb : s.client.packet.samples = some sbuf) : Track pkts { s with
      client.partialCount := s.client.partialCount + s.client.receiveAmt count recv
      caller := .copied count recv (samples ++ s.mem.loadWords (sbuf + 4 * s.client.partialCount)
        (s.client.receiveAmt count recv)) tList (s.client.receiveAmt count recv) } gone ks := by
  have hcaller := hi.caller
  have hbegun := h.begun
  rw [hc] at hcaller hbegun
  obtain ⟨hl, hlt, ho, hpc⟩ := hcaller
  obtain ⟨hk, hparsed, hsamples⟩ := hbegun trivial
  obtain ⟨hpos, hle, hroom⟩ := receiveAmt_bounds ho hpc hlt
  obtain ⟨_, r, hbuf, hr⟩ := ho
  cases hb.symm.trans hbuf
  have hlog : s.log = s.calls ++ [⟨count, samples, tList⟩] := log_eq hc
  have hnew := Mem.take_drop_loadWords s.mem (r.ptr + 28) hroom
  rw [loadWords_eq_payloadOf (h.front hp hi hr)] at hnew
  rw [hlog, samplesOf_single] at hsamples
  exact
    { stream := h.stream
      queue := h.queue
      boundary := h.boundary
      sorted := h.sorted
      before := h.before
      closed := fun hn => absurd trivial hn
      begun := fun _ => by
        refine ⟨hk, hparsed, (samplesOf_single ..).trans ?_⟩
        rw [List.take_add, hnew, ← List.append_assoc (List.flatMap ..), ← hsamples]
        exact (List.append_assoc ..).symm
      tags := by
        rw [← h.tags, hlog, callTags_append, callTags_single]
        exact (callTags_append 0 s.calls [_]).trans (congrArg (_ ++ ·) (callTags_single ..)) }

theorem track_through (hp : ∀ p ∈ pkts, p.length = 0x2000) (hi : Inv s)
    (h : Track pkts s gone ks) (hc : s.caller = .copied count recv samples tList amt)
    (hz : s.client.partialCount = s.client.packet.samplesLen) :
    Track pkts { s with
      client.buffer := s.client.buffer.receiveComplete pktSize, client.partialCount := 0
      caller := .loop count (recv + amt) samples tList }
      (gone ++ pkt pkts (gone.length / 0x2000)) (ks ++ [gone.length / 0x2000]) := by
  have hcaller := hi.caller
  have hbegun := h.begun
  rw [hc] at hcaller hbegun
  obtain ⟨_, _, ⟨hlen, r, _, hr⟩, _, _, _⟩ := hcaller
  obtain ⟨hk, hparsed, hsamples⟩ := hbegun trivial
  have hlog : s.log = s.calls ++ [⟨count, samples, tList⟩] := log_eq hc
  obtain ⟨late, hgot, hq⟩ := h.queue
  have hload := h.front hp hi hr
  have hg := h.boundary.aligned (hi.fifo.inn _ hr.1).2
  have hmax := hi.blocks.reading hi.fifo hr
  have hcont := readComplete_content hi.fifo hr hmax s.mem
  have hsame : SameFill s.client.buffer.fifo (s.client.buffer.fifo.readComplete pktSize) :=
    readComplete_same hi.fifo hr
  have hk' := keepsWriting_readComplete hi.fifo hr hmax
  have hlast : (pkt pkts (gone.length / 0x2000)).length = 0x2000 := pkt_length hp hk
  have hfull : (payloadOf (pkt pkts (gone.length / 0x2000))).take s.client.partialCount =
      payloadOf (pkt pkts (gone.length / 0x2000)) := by
    rw [hz, hlen, ← length_payloadOf hlast, List.take_length]
  have hglen : (gone ++ pkt pkts (gone.length / 0x2000)).length = gone.length + 0x2000 := by
    rw [List.length_append, hlast]
  refine ⟨h.stream, ⟨late, hgot.consumer hk', ?_⟩, .inl (by omega), ?_, fun j hj => ?_,
    fun _ => ⟨hparsed, ?_⟩, fun hn => absurd rfl hn, ?_⟩
  · simp only [SocketRxBuffer.receiveComplete_fifo]
    rw [hq, hcont, hsame.filling hi.fifo s.mem, ← hload]
    simp only [List.append_assoc, pktSize]
  · refine List.pairwise_append.2 ⟨h.sorted, List.pairwise_singleton .., fun j hj k hk => ?_⟩
    have hb := h.before j hj
    rw [List.mem_singleton.1 hk]
    omega
  · rcases List.mem_append.1 hj with hj | hj
    · have hb := h.before j hj
      omega
    · rw [List.mem_singleton.1 hj]
      omega
  · rw [List.flatMap_append, List.flatMap_singleton, ← hfull, ← hsamples]
    exact congrArg samplesOf hlog.symm
  · exact (congrArg (callTags 0) hlog.symm).trans h.tags

theorem track_ret (hi : Inv s) (h : Track pkts s gone ks)
    (hc : s.caller = .loop count recv samples tList) :
    Track pkts (s.ret count recv samples tList) gone ks := by
  have hcaller := hi.caller
  rw [hc] at hcaller
  exact h.goto ((log_ret s count recv tList hcaller.1).trans (log_eq hc).symm) (by rw [hc]; rfl)

/-- A step of `ReceiveSamples` leaves what is through as it is or adds the packet it was at. -/
theorem track_receiveStep (hp : ∀ p ∈ pkts, p.length = 0x2000) (hi : Inv s)
    (h : Track pkts s gone ks) (hs : ReceiveStep s t) :
    Track pkts t gone ks ∨ ∃ p, p.length = 0x2000 ∧
      Track pkts t (gone ++ p) (ks ++ [gone.length / 0x2000]) := by
  cases hs with
  | enter hc hlt hz hf => exact .inl (h.goto (log_eq hc).symm (by rw [hc]; rfl))
  | goOn hc hlt hz =>
    exact .inl (h.goto (log_eq hc).symm (by rw [hc]; exact ⟨fun _ => hz, fun _ => trivial⟩))
  | timeout hc hlt hz hf => exact .inl (track_ret hi h hc)
  | finish hc hge => exact .inl (track_ret hi h hc)
  | noBlock hc hr => exact absurd hr (hi.readStart_ne_none hc)
  | parse hc hr hk => exact .inl (track_parse hp hi h hc hr hk)
  | copy hc hb => exact .inl (track_copy hp hi h hc hb)
  | fault hc hb => exact absurd hb (hi.samples_ne_none hc)
  | copied hc =>
    by_cases hz : s.client.partialCount = s.client.packet.samplesLen
    · have hbegun := h.begun
      rw [hc] at hbegun
      rw [complete, if_pos hz]
      exact .inr ⟨_, pkt_length hp (hbegun trivial).1, track_through hp hi h hc hz⟩
    · have hcaller := hi.caller
      rw [hc] at hcaller
      obtain ⟨_, _, _, hpos, ha, _⟩ := hcaller
      have hne : s.client.partialCount ≠ 0 := Nat.pos_iff_ne_zero.1 (Nat.lt_of_lt_of_le hpos ha)
      rw [complete, if_neg hz]
      exact .inl (h.goto (log_eq hc).symm (by rw [hc]; exact ⟨fun _ => trivial, fun _ => hne⟩))

theorem Begun.count_pos (hi : Inv s) (h : Begun s.client s.caller) :
    0 < s.client.buffer.fifo.count := by
  have hc := hi.caller
  have hopen (ho : OpenPacket s.client) : 0 < s.client.buffer.fifo.count := by
    obtain ⟨_, r, _, hr⟩ := ho
    exact (hi.fifo.inn _ hr.1).2
  cases he : s.caller with
  | idle =>
    rw [he] at hc h
    exact hopen (hc.resolve_left h).1
  | loop =>
    rw [he] at hc h
    exact hopen (hc.2.2.resolve_left h).1
  | ready =>
    rw [he] at hc
    exact hc.2.2.2
  | copy | copied =>
    rw [he] at hc
    exact hopen hc.2.2.1
  | fault =>
    rw [he] at hc
    exact hc.elim

theorem unread_of_count {f : BlockFifo} (h : f.count = 0) (m : Mem UInt8) : f.unread m = [] := by
  rw [unread, ring, h]
  rfl

theorem content_empty {f : BlockFifo} (ho : f.outBlk = none) (hc : f.count = 0) (m : Mem UInt8) :
    f.unread m ++ f.filling m ++ [] = [] := by
  rw [unread_of_count hc, filling_none ho]
  rfl

theorem Track.received_of_empty (h : Track pkts s gone ks) (hp : s.pump = .holding r)
    (ho : s.client.buffer.fifo.outBlk = none) (hc : s.client.buffer.fifo.count = 0) :
    s.received = gone := by
  obtain ⟨late, hgot, hq⟩ := h.queue
  rw [hp] at hgot
  obtain rfl := hgot
  rw [hq, content_empty ho hc, List.append_nil]

/-- What `::recv` brings into a region that a `Flush` discarded is passed over. -/
theorem track_stale (hi : Inv s) (h : Track pkts s gone ks) (hp : s.pump = .holding r)
    (hn : n + 1 ≤ s.incoming.length) (ho : s.client.buffer.fifo.outBlk = none)
    (hc : s.client.buffer.fifo.count = 0) (hz : (s.received.length + (n + 1)) % 0x2000 = 0) :
    Track pkts { s with
      pump := .got (n + 1), mem := s.mem.store r.ptr (s.incoming.take (n + 1))
      incoming := s.incoming.drop (n + 1), received := s.received ++ s.incoming.take (n + 1) }
      (s.received ++ s.incoming.take (n + 1)) ks := by
  have hnot : ¬Begun s.client s.caller := fun hb =>
    absurd hc (Nat.ne_of_gt (Begun.count_pos hi hb))
  have hgone := h.received_of_empty hp ho hc
  have hlen : (s.received ++ s.incoming.take (n + 1)).length = s.received.length + (n + 1) := by
    rw [List.length_append, List.length_take_of_le hn]
  refine ⟨?_, ⟨[], .inl ⟨ho, rfl⟩, ?_⟩, .inl (hlen ▸ hz), h.sorted, fun j hj => ?_,
    fun _ => h.closed hnot, fun hb => absurd hb hnot, h.tags⟩
  · rw [List.append_assoc, List.take_append_drop, h.stream]
  · exact (List.append_nil _).symm.trans (congrArg (_ ++ ·) (content_empty ho hc _).symm)
  · have hb := h.before j hj
    rw [← hgone] at hb
    omega

theorem track_data (hi : Inv s) (h : Track pkts s gone ks) (hp : s.pump = .holding r)
    (hm : n + 1 ≤ r.maxAmt) (hn : n + 1 ≤ s.incoming.length)
    (hw : s.client.buffer.fifo.Writing r) :
    Track pkts { s with
      pump := .got (n + 1), mem := s.mem.store r.ptr (s.incoming.take (n + 1))
      incoming := s.incoming.drop (n + 1), received := s.received ++ s.incoming.take (n + 1) }
      gone ks := by
  obtain ⟨late, hgot, hq⟩ := h.queue
  rw [hp] at hgot
  obtain rfl := hgot
  have hlen : (s.incoming.take (n + 1)).length = n + 1 := List.length_take_of_le hn
  have hroom : 0 + (s.incoming.take (n + 1)).length ≤ r.maxAmt := by rwa [Nat.zero_add, hlen]
  have hsame := sameContent_store hi.fifo hw hroom s.mem
  rw [Addr.add_zero] at hsame
  have hload := Mem.load_store s.mem r.ptr (s.incoming.take (n + 1))
  rw [hlen] at hload
  rw [← hsame.unread, ← hsame.filling, List.append_nil] at hq
  have hq' := congrArg (· ++ s.incoming.take (n + 1)) hq
  simp only [List.append_assoc gone] at hq'
  refine ⟨?_, ⟨_, .inr ⟨r, hw, hm, hload.symm⟩, hq'⟩, .inl ?_, h.sorted, h.before, h.closed,
    h.begun, h.tags⟩
  · rw [List.append_assoc, List.take_append_drop, h.stream]
  · refine h.boundary.resolve_right ?_
    rintro ⟨ho, _⟩
    cases hw.1.symm.trans ho

theorem track_complete (hi : Inv s) (h : Track pkts s gone ks) (hp : s.pump = .got rval) :
    Track pkts { s with
      client.buffer := s.client.buffer.readDataComplete rval, pump := .idle } gone ks := by
  obtain ⟨late, hgot, hq⟩ := h.queue
  have hb : gone.length % 0x2000 = 0 := by
    refine h.boundary.running (fun hd => ?_) fun r hr => ?_
    · cases hp.symm.trans (hi.done hd)
    · cases hp.symm.trans hr
  rw [hp] at hgot
  refine h.move rfl rfl .rfl ⟨[], rfl, ?_⟩ (.inl hb)
  rw [hq]
  change _ = gone ++ ((s.client.buffer.fifo.writeComplete rval).unread s.mem ++
    (s.client.buffer.fifo.writeComplete rval).filling s.mem ++ [])
  rcases hgot with ⟨ho, rfl⟩ | ⟨r, hw, hle, rfl⟩
  · rw [writeComplete_outBlk_none ho]
  · rw [writeComplete_content hi.fifo hw hle, List.append_nil]

theorem track_flush (h : Track pkts s gone ks) (hk : KeepsBoundary s .flush)
    (hc : s.caller = .idle) :
    Track pkts { s with client := s.client.flush } s.received ks := by
  have hnot : ¬Begun s.client s.caller := by
    rw [hc]
    exact fun hne => hne hk.1
  have hgot : PumpGot s.client.buffer.fifo.reset s.mem [] s.pump := by
    cases s.pump with
    | idle | holding r => rfl
    | got rval => exact .inl ⟨rfl, rfl⟩
  have hle : gone.length ≤ s.received.length := by
    obtain ⟨late, _, hq⟩ := h.queue
    rw [hq, List.length_append]
    exact Nat.le_add_right ..
  refine ⟨h.stream, ⟨[], hgot, ?_⟩, ?_, h.sorted, fun k hk => ?_, fun _ => h.closed hnot,
    fun hb => absurd hb hnot, h.tags⟩
  · have hz := content_empty (f := s.client.buffer.fifo.reset) rfl rfl s.mem
    exact (List.append_nil _).symm.trans (congrArg (_ ++ ·) hz.symm)
  · rcases hk.2 with hd | hz | hr
    · exact .inr ⟨rfl, rfl, .inl hd⟩
    · exact .inl hz
    · exact .inr ⟨rfl, rfl, .inr hr⟩
  · exact Nat.le_trans (h.before k hk) hle

/-- Every step keeps track of the packets. Only a `Flush`, or a `::recv` for a region a `Flush`
discarded, passes over some. -/
theorem step_track (hp : ∀ p ∈ pkts, p.length = 0x2000) (hi : Inv s) (h : Track pkts s gone ks)
    (hk : KeepsBoundary s a) (hs : Step s a t) :
    ∃ gone' ks', Track pkts t gone' ks' ∧ ks <+: ks' ∧
      (a ≠ .flush → Live s → Gapless gone ks → Gapless gone' ks') := by
  have hstay (ht : Track pkts t gone ks) : ∃ gone' ks', Track pkts t gone' ks' ∧ ks <+: ks' ∧
      (a ≠ .flush → Live s → Gapless gone ks → Gapless gone' ks') :=
    ⟨gone, ks, ht, List.prefix_rfl, fun _ _ hg => hg⟩
  have hwait (hi' : s.pump = .idle) (hd : s.client.buffer.done = false) :
      gone.length % 0x2000 = 0 := by
    refine h.boundary.running (hd ▸ Bool.false_ne_true) fun r hr => ?_
    cases hi'.symm.trans hr
  obtain ⟨late, hgot, hq⟩ := h.queue
  cases hs with
  | receive hc hlt =>
    have hlog : s.log = s.calls := (log_eq hc).trans (List.append_nil _)
    refine hstay (h.move ?_ ?_ (by rw [hc]; rfl) h.queue h.boundary)
    · rw [hlog]
      exact (samplesOf_single ..).trans (List.append_nil _)
    · rw [hlog]
      exact (callTags_append ..).trans (List.append_nil _)
  | receiveStep hs =>
    rcases track_receiveStep hp hi h hs with ht | ⟨p, hlen, ht⟩
    · exact hstay ht
    · refine ⟨_, _, ht, List.prefix_append .., ?_⟩
      rintro _ _ ⟨hg, hks⟩
      have hnext : gone.length / 0x2000 = ks.length := by omega
      refine ⟨?_, ?_⟩
      · rw [List.length_append, hlen, hg, List.length_append, List.length_singleton, Nat.mul_succ]
      · rw [List.length_append, List.length_singleton, List.range_succ, ← hks, hnext]
  | flush hc =>
    exact ⟨s.received, ks, track_flush h hk hc, List.prefix_rfl, fun hne => absurd rfl hne⟩
  | startNone hi' hd hw =>
    obtain ⟨rfl, _⟩ := writeStart_none hw
    rw [hi'] at hgot
    exact hstay (h.move rfl rfl .rfl ⟨late, hgot, hq⟩ (.inl (hwait hi' hd)))
  | startSome hi' hd hw =>
    rw [← (writeStart_same hi.fifo hw).unread, ← writeStart_filling hi.fifo hw] at hq
    rw [hi'] at hgot
    exact hstay (h.move rfl rfl .rfl ⟨late, hgot, hq⟩ (.inl (hwait hi' hd)))
  | again hh =>
    rw [hh] at hgot
    refine hstay (h.move rfl rfl .rfl ⟨late, hgot, hq⟩ (.inl ?_))
    rcases h.boundary with hb | ⟨ho, hc, _⟩
    · exact hb
    · exact h.received_of_empty hh ho hc ▸ hk ho
  | closed hh hres =>
    rw [hh] at hgot
    refine hstay (h.move rfl rfl .rfl ⟨late, hgot, hq⟩ ?_)
    exact h.boundary.imp_right fun hb => ⟨hb.1, hb.2.1, .inl rfl⟩
  | @data r n hh hm hn =>
    have hheld := hi.pump
    rw [hh] at hheld
    rcases hheld with ⟨ho, hc⟩ | hw
    · exact ⟨_, ks, track_stale hi h hh hn ho hc (hk ho), List.prefix_rfl,
        fun _ hl => absurd ho (hl r hh)⟩
    · exact hstay (track_data hi h hh hm hn hw)
  | complete hh => exact hstay (track_complete hi h hh)

theorem init_track (b c : Nat) : Track pkts (init pkts.flatten b c) [] [] where
  stream := rfl
  queue := ⟨[], rfl, rfl⟩
  boundary := .inl rfl
  sorted := .nil
  before := nofun
  closed _ := ⟨rfl, rfl⟩
  begun hb := absurd rfl hb
  tags := rfl

end

theorem readComplete_outBlk (f : BlockFifo) (amt : Nat) :
    (f.readComplete amt).outBlk = f.outBlk := by
  rw [readComplete]
  split
  · dsimp only
    split <;> rfl
  · rfl

theorem readStart_outBlk (f : BlockFifo) : f.readStart.1.outBlk = f.outBlk := by
  rw [readStart]
  split
  · rfl
  · split <;> rfl

theorem receiveStep_calls {s : RxSystem} (hs : ReceiveStep s t) :
    (t.calls = s.calls ∨ s.calls <+: t.calls ∧ t.caller = .idle) ∧ t.pump = s.pump ∧
      t.client.buffer.fifo.outBlk = s.client.buffer.fifo.outBlk := by
  cases hs with
  | enter | goOn | copy | fault => exact ⟨.inl rfl, rfl, rfl⟩
  | timeout | finish => exact ⟨.inr ⟨List.prefix_append .., rfl⟩, rfl, rfl⟩
  | noBlock hc hr =>
    have hout := readStart_outBlk s.client.buffer.fifo
    rw [hr] at hout
    exact ⟨.inl rfl, rfl, hout⟩
  | parse hc hr hk =>
    have hout := readStart_outBlk s.client.buffer.fifo
    rw [hr] at hout
    subst hk
    exact ⟨.inl rfl, rfl, hout⟩
  | copied hc =>
    refine ⟨.inl rfl, rfl, ?_⟩
    change s.client.complete.buffer.fifo.outBlk = _
    rw [complete]
    split
    · exact readComplete_outBlk ..
    · rfl

theorem step_calls {s : RxSystem} (hs : Step s a t) :
    t.calls = s.calls ∨ s.calls <+: t.calls ∧ t.caller = .idle := by
  cases hs with
  | receiveStep hs => exact (receiveStep_calls hs).1
  | receive | flush | startNone | startSome | again | closed | data | complete => exact .inl rfl

theorem step_live (hi : Inv s) (h : Live s) (hf : a ≠ .flush) (hs : Step s a t) : Live t := by
  cases hs with
  | receive hc hlt => exact h
  | receiveStep hs =>
    obtain ⟨_, hp, ho⟩ := receiveStep_calls hs
    intro r hr
    rw [ho]
    exact h r (hp ▸ hr)
  | flush hc => exact absurd rfl hf
  | startSome hi' hd hw =>
    intro _ _ ho
    cases (writeStart_writing hi.fifo hw).1.symm.trans ho
  | startNone | again | closed | data | complete =>
    intro _ hr
    cases hr

end RxSystem
end Avs4000
