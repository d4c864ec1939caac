import Avs4000.RxTrack

namespace Avs4000
namespace RxSystem
open Memory Frames
open BlockFifo hiding count
open TcpRxSignalClient (pktSize receiveAmt complete)
set_option autoImplicit true

/-- The tags of the packets that are begun once `n` samples are handed out, counted from the
first sample of the stream. -/
def tagsFor (pkts : List (List UInt8)) (n : Nat) : List TimeTag :=
  (List.range ((n + 2039) / 2040)).map fun k => tagOf (2040 * k) (pkt pkts k)

theorem tagsFor_zero (pkts : List (List UInt8)) : tagsFor pkts 0 = [] := rfl

section
variable {pkts : List (List UInt8)}

theorem tagsOf_range (pkts : List (List UInt8)) (m : Nat) :
    tagsOf 0 ((List.range m).map (pkt pkts)) =
      (List.range m).map fun k => tagOf (2040 * k) (pkt pkts k) := by
  induction m with
  | zero => rfl
  | succ m ih =>
    rw [List.range_succ, List.map_append, List.map_singleton, tagsOf_append, ih, List.map_append,
      List.length_map, List.length_range, Nat.zero_add, List.map_singleton]
    rfl

theorem map_pkt_range (h : m ≤ pkts.length) : (List.range m).map (pkt pkts) = pkts.take m := by
  apply List.ext_getElem
  · rw [List.length_map, List.length_range, List.length_take_of_le h]
  · intro k hk _
    rw [List.length_map, List.length_range] at hk
    rw [List.getElem_map, List.getElem_range, List.getElem_take, pkt, List.getD_eq_getElem?_getD,
      List.getElem?_eq_getElem (Nat.lt_of_lt_of_le hk h), Option.getD_some]

theorem initial_payloads (h : m ≤ pkts.length) :
    ((List.range m).flatMap fun k => payloadOf (pkt pkts k)) <+: pkts.flatMap payloadOf := by
  have hmap := List.flatMap_map (pkt pkts) payloadOf (List.range m)
  rw [← hmap, map_pkt_range h]
  refine ⟨(pkts.drop m).flatMap payloadOf, ?_⟩
  rw [← List.flatMap_append, List.take_append_drop]

theorem Gapless.length_le (hp : ∀ p ∈ pkts, p.length = 0x2000) (h : Track pkts s gone ks)
    (hg : Gapless gone ks) : ks.length ≤ pkts.length := by
  refine Nat.le_of_not_lt fun hlt => ?_
  have hmem : pkts.length ∈ ks := by
    rw [hg.2]
    exact List.mem_range.2 hlt
  exact Nat.lt_irrefl _ (h.ks_lt hp _ hmem)

theorem Track.initial_samples (hp : ∀ p ∈ pkts, p.length = 0x2000) (h : Track pkts s gone ks)
    (hg : Gapless gone ks) : samplesOf s.log <+: pkts.flatMap payloadOf := by
  by_cases hb : Begun s.client s.caller
  · obtain ⟨hk, _, hs⟩ := h.begun hb
    have hnext : gone.length / 0x2000 = ks.length := by
      have hlen := hg.1
      omega
    rw [hnext] at hk hs
    refine List.IsPrefix.trans ?_ (initial_payloads (m := ks.length + 1) hk)
    rw [hs, List.range_succ, List.flatMap_append, List.flatMap_singleton, ← hg.2]
    exact (List.prefix_append_right_inj _).2 (List.take_prefix ..)
  · rw [(h.closed hb).2, hg.2]
    exact initial_payloads (hg.length_le hp h)

theorem Track.tags_idle (hp : ∀ p ∈ pkts, p.length = 0x2000) (hi : Inv s)
    (h : Track pkts s gone ks) (hg : Gapless gone ks) (he : s.caller = .idle) :
    callTags 0 s.calls = tagsFor pkts (samplesOf s.calls).length := by
  have hlog : s.log = s.calls := (log_eq he).trans (List.append_nil _)
  have hall := h.length_payloads hp
  have htags := h.tags
  rw [hlog] at htags
  rw [htags, tagsFor]
  by_cases hb : Begun s.client s.caller
  · obtain ⟨hk, hparsed, hs⟩ := h.begun hb
    have hnext : gone.length / 0x2000 = ks.length := by
      have hlen := hg.1
      omega
    have hc := hi.caller
    rw [he] at hb hc
    obtain ⟨_, hlt⟩ := hc.resolve_left hb
    have hpos : 0 < s.client.partialCount := Nat.pos_of_ne_zero hb
    have hlast := length_payloadOf (pkt_length hp hk)
    have hn : ((samplesOf s.calls).length + 2039) / 2040 = ks.length + 1 := by
      rw [← hlog, hs, List.length_append, List.length_take, hlast, hall]
      omega
    rw [hn, ← tagsOf_range, hparsed, hnext, List.range_succ, ← hg.2]
  · obtain ⟨hparsed, hs⟩ := h.closed hb
    have hn : ((samplesOf s.calls).length + 2039) / 2040 = ks.length := by
      rw [← hlog, hs, hall]
      omega
    rw [hn, ← tagsOf_range, hparsed, ← hg.2]

/-- What holds between the steps of a run without a `Flush`. -/
structure Delivers (pkts : List (List UInt8)) (s : RxSystem) : Prop where
  inv : Inv s
  live : Live s
  track : ∃ gone ks, Track pkts s gone ks ∧ Gapless gone ks
  tags : callTags 0 s.calls = tagsFor pkts (samplesOf s.calls).length

theorem Live.keepsBoundary (h : Live s) (hf : a ≠ .flush) (hs : Step s a t) :
    KeepsBoundary s a := by
  cases hs with
  | flush => exact absurd rfl hf
  | receive | receiveStep | startNone | startSome | complete => trivial
  | again hp => exact fun ho => absurd ho (h _ hp)
  | closed hp hres => rcases hres with rfl | rfl <;> trivial
  | data hp hm hn => exact fun ho => absurd ho (h _ hp)

theorem step_delivers (hp : ∀ p ∈ pkts, p.length = 0x2000) (h : Delivers pkts s) (hf : a ≠ .flush)
    (hs : Step s a t) : Delivers pkts t := by
  obtain ⟨gone, ks, htrack, hgap⟩ := h.track
  have hinv := step_inv h.inv (fun he => absurd he hf) hs
  obtain ⟨gone', ks', htrack', _, hgap'⟩ :=
    step_track hp h.inv htrack (h.live.keepsBoundary hf hs) hs
  have hgap'' := hgap' hf h.live hgap
  refine ⟨hinv, step_live h.inv h.live hf hs, ⟨gone', ks', htrack', hgap''⟩, ?_⟩
  rcases step_calls hs with hc | ⟨_, he⟩
  · rw [hc, h.tags]
  · exact htrack'.tags_idle hp hinv hgap'' he

theorem init_delivers (hq : 0 < q) (hc : 0 < c) :
    Delivers pkts (init pkts.flatten (0x2000 * q) c) where
  inv := init_inv (Nat.mul_pos (by decide) hq) (Nat.mul_mod_right ..) hc _
  live := nofun
  track := ⟨[], [], init_track .., rfl, rfl⟩
  tags := (tagsFor_zero pkts).symm

theorem run_delivers (hp : ∀ p ∈ pkts, p.length = 0x2000) (hq : 1 ≤ q) (hc : 2 ≤ c)
    (hf : ∀ a ∈ acts, a ≠ .flush)
    (hr : Sys.run step (init pkts.flatten (0x2000 * q) c) acts = some s) : Delivers pkts s :=
  Sys.run_induction (fun _ _ _ h hf hs => step_delivers hp h hf (step_cases hs))
    (init_delivers hq (Nat.lt_of_lt_of_le Nat.zero_lt_two hc)) (Sys.along_of_forall hf _) hr

/-- The calls return the payloads of the packets in order, with one tag for each packet begun,
however the stream is cut up by `::recv` and by the counts of the calls. -/
theorem samples_and_tags (hp : ∀ p ∈ pkts, p.length = 0x2000) (hq : 1 ≤ q) (hc : 2 ≤ c)
    (hf : ∀ a ∈ acts, a ≠ .flush)
    (hr : Sys.run step (init pkts.flatten (0x2000 * q) c) acts = some s) :
    samplesOf s.calls <+: pkts.flatMap payloadOf ∧
      (∀ call ∈ s.calls, call.samples.length ≤ call.count) ∧
      callTags 0 s.calls = tagsFor pkts (samplesOf s.calls).length := by
  have h := run_delivers hp hq hc hf hr
  obtain ⟨gone, ks, htrack, hgap⟩ := h.track
  refine ⟨?_, h.inv.calls, h.tags⟩
  refine List.IsPrefix.trans ?_ (htrack.initial_samples hp hgap)
  rw [log, samplesOf_append]
  exact List.prefix_append ..

end

def pumpPacket : List Act := [.readDataStart, .got (.data 0x2000), .readDataComplete]

/-- The state once the pump has brought `n` bytes to the region `r` of the ring `f`. -/
def bytesIn (s : RxSystem) (f : BlockFifo) (r : Region) (n : Nat) : RxSystem :=
  { s with
    client.buffer := { s.client.buffer with fifo := f }.readDataComplete n, pump := .idle
    mem := s.mem.store r.ptr (s.incoming.take n), incoming := s.incoming.drop n
    received := s.received ++ s.incoming.take n }

section
variable (s : RxSystem) (f : BlockFifo) (r : Region) (n : Nat)

theorem bytesIn_fifo : (s.bytesIn f r n).client.buffer.fifo = f.writeComplete n := rfl

theorem bytesIn_caller : (s.bytesIn f r n).caller = s.caller := rfl

theorem bytesIn_partialCount :
    (s.bytesIn f r n).client.partialCount = s.client.partialCount := rfl

theorem bytesIn_parsed : (s.bytesIn f r n).parsed = s.parsed := rfl

theorem bytesIn_calls : (s.bytesIn f r n).calls = s.calls := rfl

end

theorem pump_packet {s : RxSystem} (hp : s.pump = .idle) (hd : s.client.buffer.done = false)
    (hw : s.client.buffer.fifo.writeStart = (f, some r)) (hm : 0x2000 ≤ r.maxAmt)
    (hn : 0x2000 ≤ s.incoming.length) :
    Sys.run step s pumpPacket = some (s.bytesIn f r 0x2000) := by
  let s₁ := { s with client.buffer.fifo := f, pump := .holding r }
  have h₁ : step s .readDataStart = some s₁ := by
    simp only [step, hp, hd, SocketRxBuffer.readDataStart, hw, Bool.false_eq_true, if_false, s₁]
  let s₂ := { s₁ with
    mem := s.mem.store r.ptr (s.incoming.take 0x2000), incoming := s.incoming.drop 0x2000
    received := s.received ++ s.incoming.take 0x2000, pump := .got 0x2000 }
  have h₂ : step s₁ (.got (.data 0x2000)) = some s₂ := by
    simp only [step, s₁, hm, hn, and_self, if_true, SocketRxBuffer.readDataGot, s₂]
  have h₃ : step s₂ .readDataComplete = some (s.bytesIn f r 0x2000) := by
    simp only [step, s₂, s₁, bytesIn]
  simp only [pumpPacket, Sys.run, h₁, h₂, h₃, Option.bind_some]

/-- A call has parsed the packet in the region `r` and copied what it takes of it. -/
def opened (s : RxSystem) (f : BlockFifo) (r : Region) (count : Nat) : RxSystem :=
  let c := { s.client with
    buffer.fifo := f, packet := s.client.packet.init s.mem r.ptr pktSize, partialCount := 0 }
  let amt := min count 2040
  { s with
    client := { c with partialCount := amt }
    caller := .copied count 0 (s.mem.loadWords (r.ptr + 28) amt) [c.timeTag 0] amt
    parsed := s.parsed ++ [s.mem.load r.ptr 0x2000] }

theorem opened_samplesLen (s : RxSystem) (f : BlockFifo) (r : Region) (count : Nat) :
    (s.opened f r count).client.packet.samplesLen = 2040 := V49Packet.samplesFor_packet

theorem receive_opens {s : RxSystem} (hc : s.caller = .idle) (hp : s.client.partialCount = 0)
    (he : ¬s.client.buffer.fifo.empty) (hr : s.client.buffer.fifo.readStart = (f', some r))
    (hn : 0 < count) (hlt : count < 2 ^ 32) :
    Sys.run step s [.receive count, .receiveStep, .receiveStep, .receiveStep] =
      some (s.opened f' r count) := by
  let s₁ := { s with caller := .loop count 0 [] [] }
  have h₁ : step s (.receive count) = some s₁ := by
    simp only [step, hc, hlt, if_true, s₁]
  let s₂ := { s with caller := .ready count 0 [] [] }
  have h₂ : step s₁ .receiveStep = some s₂ := by
    simp only [step, receiveStep, s₁, s₂, hn, hp, SocketRxBuffer.waitForReadyReceive,
      he, if_true, decide_false, Bool.not_false]
  let c := { s.client with
    buffer.fifo := f', packet := s.client.packet.init s.mem r.ptr pktSize }
  let s₃ := { s with
    client := c, caller := .copy count 0 [] [c.timeTag 0]
    parsed := s.parsed ++ [s.mem.load r.ptr 0x2000] }
  have h₃ : step s₂ .receiveStep = some s₃ := by
    simp only [step, receiveStep, s₂, s₃, c, SocketRxBuffer.receiveStart, hr, List.nil_append]
    rfl
  have hamt : c.receiveAmt count 0 = min count 2040 := by
    have hpart : c.partialCount = 0 := hp
    have hlen : c.packet.samplesLen = 2040 := V49Packet.samplesFor_packet
    rw [receiveAmt, hlen, hpart]
    split <;> omega
  have h₄ : step s₃ .receiveStep = some (s.opened f' r count) := by
    have hcopy : step s₃ .receiveStep = some { s₃ with
        client.partialCount := s.client.partialCount + c.receiveAmt count 0
        caller := .copied count 0 (s.mem.loadWords (r.ptr + 28 + 4 * s.client.partialCount)
          (c.receiveAmt count 0)) [c.timeTag 0] (c.receiveAmt count 0) } := rfl
    rw [hcopy, hamt, hp, Nat.zero_add]
    rfl
  simp only [Sys.run, h₁, h₂, h₃, h₄, Option.bind_some]

theorem receive_first {s : RxSystem} (hc : s.caller = .idle) (hp : s.client.partialCount = 0)
    (he : ¬s.client.buffer.fifo.empty)
    (hr : s.client.buffer.fifo.readStart = (f', some r)) :
    ∃ t, Sys.run step s [.receive 1, .receiveStep, .receiveStep, .receiveStep, .receiveStep,
        .receiveStep] = some t ∧
      t.caller = .idle ∧ t.client.partialCount = 1 ∧ t.client.packet.samplesLen = 2040 ∧
      t.client.packet.samples = some (r.ptr + 28) ∧
      t.parsed = s.parsed ++ [s.mem.load r.ptr 0x2000] ∧
      ∃ ws tag, ws.length = 1 ∧ t.calls = s.calls ++ [⟨1, ws, [tag]⟩] := by
  have hopen := receive_opens hc hp he hr Nat.one_pos (Nat.one_lt_two_pow (Nat.succ_ne_zero 31))
  have hlen := opened_samplesLen s f' r 1
  let ws := s.mem.loadWords (r.ptr + 28) 1
  have hws : ws.length = 1 := Mem.length_loadWords ..
  let tag := (s.opened f' r 1).client.timeTag 0
  let t := { s.opened f' r 1 with caller := .loop 1 1 ws [tag] }
  have hcopied : step (s.opened f' r 1) .receiveStep = some t := by
    have hne : ¬(s.opened f' r 1).client.partialCount = 2040 := by
      change ¬min 1 2040 = 2040
      decide
    have hcomplete : (s.opened f' r 1).client.complete = (s.opened f' r 1).client :=
      if_neg (hlen ▸ hne)
    have hstep : step (s.opened f' r 1) .receiveStep = some { s.opened f' r 1 with
        client := (s.opened f' r 1).client.complete, caller := .loop 1 1 ws [tag] } := rfl
    rw [hstep, hcomplete]
  have hret : step t .receiveStep = some (t.ret 1 1 ws [tag]) := rfl
  refine ⟨t.ret 1 1 ws [tag], ?_, rfl, rfl, hlen, rfl, rfl, ws, tag, hws, ?_⟩
  · exact Sys.run_append_eq_some.2 ⟨_, hopen, by simp only [Sys.run, hcopied, hret,
      Option.bind_some]⟩
  · change s.calls ++ [⟨1, ws.take 1, [tag]⟩] = _
    rw [← hws, List.take_length]

/-- A call for more than there is in a packet. -/
def receivePacket : List Act :=
  [.receive 2041, .receiveStep, .receiveStep, .receiveStep, .receiveStep, .receiveStep]

/-- What is left by such a call that found the packet `p` and nothing else. -/
structure Took (p : List UInt8) (f : BlockFifo) (s t : RxSystem) : Prop where
  caller : t.caller = .idle
  pump : t.pump = s.pump
  incoming : t.incoming = s.incoming
  fifo : t.client.buffer.fifo = f
  parsed : t.parsed = s.parsed ++ [p]
  calls : ∃ ws tag, ws.length = 2040 ∧ t.calls = s.calls ++ [⟨2041, ws, [tag]⟩]

theorem receive_whole {s : RxSystem} (hc : s.caller = .idle) (hp : s.client.partialCount = 0)
    (he : ¬s.client.buffer.fifo.empty)
    (hr : s.client.buffer.fifo.readStart = (f', some r)) (he' : (f'.readComplete 0x2000).empty) :
    ∃ t, Sys.run step s receivePacket = some t ∧
      Took (s.mem.load r.ptr 0x2000) (f'.readComplete 0x2000) s t := by
  have hopen := receive_opens hc hp he hr (Nat.succ_pos 2040) (by decide)
  have hlen := opened_samplesLen s f' r 2041
  let ws := s.mem.loadWords (r.ptr + 28) 2040
  have hws : ws.length = 2040 := Mem.length_loadWords ..
  let tag := (s.opened f' r 2041).client.timeTag 0
  let c := { (s.opened f' r 2041).client with
    buffer := (s.opened f' r 2041).client.buffer.receiveComplete pktSize, partialCount := 0 }
  let t := { s.opened f' r 2041 with client := c, caller := .loop 2041 2040 ws [tag] }
  have hcopied : step (s.opened f' r 2041) .receiveStep = some t := by
    have hcomplete : (s.opened f' r 2041).client.complete = c := if_pos hlen.symm
    have hstep : step (s.opened f' r 2041) .receiveStep = some { s.opened f' r 2041 with
        client := (s.opened f' r 2041).client.complete, caller := .loop 2041 2040 ws [tag] } := rfl
    rw [hstep, hcomplete]
  have hret : step t .receiveStep = some (t.ret 2041 2040 ws [tag]) := by
    have hempty : t.client.buffer.fifo.empty := he'
    have hz : t.client.partialCount = 0 := rfl
    simp only [step, receiveStep, t, Nat.lt_succ_self, if_true] at hempty hz ⊢
    simp only [SocketRxBuffer.waitForReadyReceive, hempty, hz, decide_true, Bool.not_true,
      Bool.false_eq_true, if_false, if_true]
  have hsame : t.pump = s.pump ∧ t.incoming = s.incoming := by simp only [t, opened, and_self]
  refine ⟨t.ret 2041 2040 ws [tag], ?_, rfl, hsame.1, hsame.2, rfl, rfl, ws, tag, hws, ?_⟩
  · exact Sys.run_append_eq_some.2 ⟨_, hopen, by simp only [Sys.run, hcopied, hret,
      Option.bind_some]⟩
  · change s.calls ++ [⟨2041, ws.take 2040, [tag]⟩] = _
    rw [← hws, List.take_length]

theorem receive_next {s : RxSystem} (hc : s.caller = .idle) (hp : s.client.partialCount = 1)
    (hl : s.client.packet.samplesLen = 2040) (hb : s.client.packet.samples = some a) :
    ∃ t, Sys.run step s [.receive 1, .receiveStep, .receiveStep, .receiveStep, .receiveStep] =
        some t ∧
      t.caller = .idle ∧ t.parsed = s.parsed ∧
      ∃ ws, ws.length = 1 ∧ t.calls = s.calls ++ [⟨1, ws, []⟩] := by
  let s₁ := { s with caller := .loop 1 0 [] [] }
  have h₁ : step s (.receive 1) = some s₁ := by
    simp only [step, hc, Nat.one_lt_two_pow (Nat.succ_ne_zero 31), if_true, s₁]
  let s₂ := { s with caller := .copy 1 0 [] [] }
  have h₂ : step s₁ .receiveStep = some s₂ := by
    simp only [step, receiveStep, s₁, s₂, Nat.zero_lt_one, hp, if_true, Nat.succ_ne_zero, if_false]
  let ws := s.mem.loadWords (a + 4 * 1) 1
  have hws : ws.length = 1 := Mem.length_loadWords ..
  let s₃ := { s with client.partialCount := 2, caller := .copied 1 0 ws [] 1 }
  have h₃ : step s₂ .receiveStep = some s₃ := by
    have hamt : s₂.client.receiveAmt 1 0 = 1 := by
      change s.client.receiveAmt 1 0 = 1
      rw [receiveAmt, hl, hp]
      rfl
    simp only [step, receiveStep, s₂, hb] at hamt ⊢
    rw [hamt, hp]
    rfl
  let s₄ := { s₃ with caller := .loop 1 1 ws [] }
  have h₄ : step s₃ .receiveStep = some s₄ := by
    have hne : ¬s₃.client.partialCount = s₃.client.packet.samplesLen := by
      change ¬2 = s.client.packet.samplesLen
      rw [hl]
      decide
    have hcomplete : s₃.client.complete = s₃.client := if_neg hne
    have hstep : step s₃ .receiveStep = some { s₃ with
        client := s₃.client.complete, caller := .loop 1 1 ws [] } := rfl
    rw [hstep, hcomplete]
  refine ⟨s₄.ret 1 1 ws [], ?_, rfl, rfl, ws, hws, ?_⟩
  · have h₅ : step s₄ .receiveStep = some (s₄.ret 1 1 ws []) := rfl
    simp only [Sys.run, h₁, h₂, h₃, h₄, h₅, Option.bind_some]
  · change s.calls ++ [⟨1, ws.take 1, []⟩] = _
    rw [← hws, List.take_length]

/-- What there is once a packet has arrived. -/
structure Arrived (s : RxSystem) : Prop where
  caller : s.caller = .idle
  pump : s.pump = .idle
  incoming : s.incoming = []
  partialCount : s.client.partialCount = 0
  fifo : s.client.buffer.fifo = .oneBlock 0x2000
  parsed : s.parsed = []
  calls : s.calls = []

theorem run_pumpPacket (hp : p.length = 0x2000) :
    ∃ s, Sys.run step (init [p].flatten (0x2000 * 1) 2) pumpPacket = some s ∧ Arrived s := by
  have hn : 0x2000 ≤ [p].flatten.length := by
    rw [List.flatten_singleton, hp]
  have hpump := pump_packet (s := init [p].flatten (0x2000 * 1) 2)
    (f := (BlockFifo.new 0x2000 2).writeStart.1) (r := ⟨⟨0, 0⟩, 0x2000⟩) rfl rfl rfl
    (Nat.le_refl _) hn
  refine ⟨_, hpump, rfl, rfl, ?_, rfl, bytesIn_fifo .., rfl, rfl⟩
  change [p].flatten.drop 0x2000 = []
  rw [List.flatten_singleton, ← hp, List.drop_length]

theorem Arrived.readStart (h : Arrived s) : s.client.buffer.fifo.readStart =
    ((oneBlock 0x2000).readStart.1, some ⟨⟨0, 0⟩, 0x2000⟩) :=
  (congrArg BlockFifo.readStart h.fifo).trans (oneBlock_readStart _)

theorem Arrived.not_empty (h : Arrived s) : ¬s.client.buffer.fifo.empty :=
  h.fifo ▸ oneBlock_not_empty _

def firstSample : List Act :=
  [.readDataStart, .got (.data 0x2000), .readDataComplete] ++
    [.receive 1, .receiveStep, .receiveStep, .receiveStep, .receiveStep, .receiveStep]

theorem run_firstSample (hp : p.length = 0x2000) :
    ∃ s, Sys.run step (init [p].flatten (0x2000 * 1) 2) firstSample = some s ∧
      s.caller = .idle ∧ s.client.partialCount = 1 ∧ s.client.packet.samplesLen = 2040 ∧
      (∃ a, s.client.packet.samples = some a) ∧ s.parsed.length = 1 ∧
      ∃ ws tag, ws.length = 1 ∧ s.calls = [⟨1, ws, [tag]⟩] := by
  obtain ⟨s, hs, h⟩ := run_pumpPacket hp
  obtain ⟨t, ht, hc, hpart, hlen, hsamples, hparsed, ws, tag, hws, hcalls⟩ :=
    receive_first h.caller h.partialCount h.not_empty h.readStart
  refine ⟨t, Sys.run_append_eq_some.2 ⟨s, hs, ht⟩, hc, hpart, hlen, ⟨_, hsamples⟩, ?_, ws, tag,
    hws, ?_⟩
  · rw [hparsed, h.parsed]
    rfl
  · rw [hcalls, h.calls]
    rfl

theorem samples_and_tags_first :
    let pkts := [List.replicate 0x2000 (0 : UInt8)]
    ∃ s, Sys.run step (init pkts.flatten (0x2000 * 1) 2) firstSample = some s ∧
      (samplesOf s.calls).length = 1 ∧ samplesOf s.calls <+: pkts.flatMap payloadOf := by
  intro pkts
  have hlen : (List.replicate 0x2000 (0 : UInt8)).length = 0x2000 := List.length_replicate
  obtain ⟨s, hr, _, _, _, _, _, ws, tag, hws, hcalls⟩ := run_firstSample hlen
  have hp : ∀ p ∈ pkts, p.length = 0x2000 := by
    intro p hp
    rw [List.mem_singleton.1 hp, hlen]
  have hf : ∀ a ∈ firstSample, a ≠ .flush := by simp [firstSample]
  refine ⟨s, hr, ?_, (samples_and_tags hp (by decide) (by decide) hf hr).1⟩
  rw [hcalls, samplesOf, List.flatMap_singleton, hws]

end RxSystem
end Avs4000
