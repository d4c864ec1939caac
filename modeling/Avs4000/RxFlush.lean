import Avs4000.RxSamples

namespace Avs4000
namespace RxSystem
set_option autoImplicit true

/-- A run that leads from `s` to `u` hands out packets of the stream that were not parsed by `s`,
each from its first sample on and with its tag. -/
def Restarts (pkts : List (List UInt8)) (s u : RxSystem) : Prop :=
  ∃ old new : List Nat, (old ++ new).Pairwise (· < ·) ∧ (∀ k ∈ old ++ new, k < pkts.length) ∧
    s.parsed = old.map (pkt pkts) ∧ u.parsed = s.parsed ++ new.map (pkt pkts) ∧
    ∃ later, u.log = s.calls ++ later ∧
      samplesOf later <+: new.flatMap (fun k => payloadOf (pkt pkts k)) ∧
      callTags (samplesOf s.calls).length later =
        tagsOf (samplesOf s.calls).length (new.map (pkt pkts))

section
variable {pkts : List (List UInt8)}

theorem Track.begun_packets (hp : ∀ p ∈ pkts, p.length = 0x2000) (h : Track pkts s gone ks) :
    ∃ more, (ks ++ more).Pairwise (· < ·) ∧ (∀ k ∈ ks ++ more, k < pkts.length) ∧
      s.parsed = (ks ++ more).map (pkt pkts) ∧
      samplesOf s.log <+: (ks ++ more).flatMap fun k => payloadOf (pkt pkts k) := by
  by_cases hb : Begun s.client s.caller
  · obtain ⟨hk, hparsed, hs⟩ := h.begun hb
    refine ⟨[gone.length / 0x2000], List.pairwise_append.2 ⟨h.sorted, List.pairwise_singleton ..,
      fun j hj k hk => ?_⟩, fun k hk' => ?_, hparsed, ?_⟩
    · have hj := h.before j hj
      rw [List.mem_singleton.1 hk]
      omega
    · rcases List.mem_append.1 hk' with hk' | hk'
      · exact h.ks_lt hp k hk'
      · rwa [List.mem_singleton.1 hk']
    · rw [hs, List.flatMap_append, List.flatMap_singleton]
      exact (List.prefix_append_right_inj _).2 (List.take_prefix ..)
  · obtain ⟨hparsed, hs⟩ := h.closed hb
    refine ⟨[], ?_⟩
    rw [List.append_nil, hs]
    exact ⟨h.sorted, h.ks_lt hp, hparsed, List.prefix_rfl⟩

/-- A run keeps track of the packets as long as no step loses the packet boundary. -/
theorem run_track (hp : ∀ p ∈ pkts, p.length = 0x2000) (hi : Inv s) (h : Track pkts s gone ks)
    (hk : Sys.Along step KeepsBoundary s acts) (hr : Sys.run step s acts = some t) :
    Inv t ∧ s.calls <+: t.calls ∧ ∃ gone' ks', Track pkts t gone' ks' ∧ ks <+: ks' := by
  refine Sys.run_induction (I := fun t => Inv t ∧ s.calls <+: t.calls ∧
    ∃ gone' ks', Track pkts t gone' ks' ∧ ks <+: ks') ?_
    ⟨hi, List.prefix_rfl, gone, ks, h, List.prefix_rfl⟩ hk hr
  rintro t a u ⟨hi, hcalls, gone, ks, h, hks⟩ hk hs
  replace hs := step_cases hs
  obtain ⟨gone', ks', h', hks', _⟩ := step_track hp hi h hk hs
  refine ⟨step_inv hi (fun he => ?_) hs, ?_, gone', ks', h', hks.trans hks'⟩
  · subst he
    exact hk.1
  · rcases step_calls hs with hc | ⟨hc, _⟩
    · exact hc ▸ hcalls
    · exact hcalls.trans hc

/-- As long as no step loses the packet boundary, what follows a `Flush` starts with a new packet
of the stream. -/
theorem flush_restarts (hp : ∀ p ∈ pkts, p.length = 0x2000) (hq : 1 ≤ q) (hc : 2 ≤ c)
    (hk : Sys.Along step KeepsBoundary (init pkts.flatten (0x2000 * q) c)
      (before ++ .flush :: after))
    (hs : Sys.run step (init pkts.flatten (0x2000 * q) c) before = some s)
    (hu : Sys.run step s (.flush :: after) = some u) : Restarts pkts s u := by
  obtain ⟨hbefore, hafter⟩ := hk.append
  have hflush := hafter s hs
  have hinit := init_inv (Nat.mul_pos (by decide) hq) (Nat.mul_mod_right 0x2000 q)
    (Nat.lt_of_lt_of_le Nat.zero_lt_two hc) pkts.flatten
  obtain ⟨hi, _, gone, ks, h, _⟩ := run_track hp hinit (init_track ..) hbefore hs
  obtain ⟨_, hcalls, gone', ks', h', hks⟩ := run_track hp hi h hflush hu
  obtain ⟨rest, rfl⟩ := hks
  obtain ⟨calls, hcalls⟩ := hcalls
  have hidle : s.caller = .idle := by
    obtain ⟨t, ht, _⟩ := Sys.run_cons_eq_some.1 hu
    cases step_cases ht with
    | flush hc => exact hc
  have hnot : ¬Begun s.client s.caller := by
    rw [hidle]
    exact fun hne => hne hflush.1.1
  obtain ⟨hparsed, hsamples⟩ := h.closed hnot
  have hlog : s.log = s.calls := (log_eq hidle).trans (List.append_nil _)
  have hall := h.length_payloads hp
  have htags := h.tags
  rw [hlog] at hsamples htags
  rw [← hsamples] at hall
  obtain ⟨more, hsorted, hlt, hparsed', hsamples'⟩ := h'.begun_packets hp
  rw [List.append_assoc] at hsorted hlt hparsed' hsamples'
  rw [List.map_append, ← hparsed] at hparsed'
  have hlog' : u.log = s.calls ++ (calls ++ running u.caller) := by
    rw [log, ← hcalls, List.append_assoc]
  have htags' := h'.tags
  rw [hlog', callTags_append, htags, hparsed', tagsOf_append, Nat.zero_add, Nat.zero_add] at htags'
  rw [hlog', samplesOf_append, List.flatMap_append, hsamples,
    List.prefix_append_right_inj] at hsamples'
  have hlen : s.parsed.length = ks.length := by rw [hparsed, List.length_map]
  refine ⟨ks, rest ++ more, hsorted, hlt, hparsed, hparsed', _, hlog', hsamples', ?_⟩
  rw [List.append_cancel_left htags', hlen, hall]

end

theorem pumpPacket_keepsBoundary {s : RxSystem} (h : s.received.length % 0x2000 = 0) :
    Sys.Along step KeepsBoundary s pumpPacket := by
  refine ⟨trivial, fun t ht => ⟨fun _ => ?_, fun u _ => ⟨trivial, fun _ _ => trivial⟩⟩⟩
  have hr : t.received = s.received := by
    cases step_cases ht with
    | startNone | startSome => rfl
  rw [hr]
  change (s.received.length + 0x2000) % 0x2000 = 0
  rw [Nat.add_mod_right, h]

open BlockFifo in
theorem reset_packet (f : BlockFifo) (hb : f.blkCount = 2)
    (hs : (f.blk 0).size = 0x2000) (ha : (f.blk 0).buf = ⟨0, 0⟩) :
    let g := f.reset.writeStart.1.writeComplete 0x2000
    f.reset.writeStart = (f.reset.writeStart.1, some ⟨⟨0, 0⟩, 0x2000⟩) ∧ ¬g.empty ∧
      g.readStart = (g.readStart.1, some ⟨⟨0, 0⟩, 0x2000⟩) := by
  simp [reset, readStart, writeComplete, writeStart, setBlk, full, empty, pinc, Block.reset, hb,
    hs, ha]

theorem run_flushed (h₁ : p₁.length = 0x2000) (h₂ : p₂.length = 0x2000) : ∃ s u,
    Sys.run step (init [p₁, p₂].flatten (0x2000 * 1) 2) pumpPacket = some s ∧
    Sys.run step s (.flush :: firstSample) = some u ∧ u.parsed.length = 1 ∧
    (samplesOf u.calls).length = 1 ∧ Sys.Along step KeepsBoundary
      (init [p₁, p₂].flatten (0x2000 * 1) 2) (pumpPacket ++ .flush :: firstSample) := by
  have hlen : [p₁, p₂].flatten.length = 0x4000 := by
    simp only [List.flatten_cons, List.flatten_nil, List.append_nil, List.length_append, h₁, h₂]
  let r : Region := ⟨⟨0, 0⟩, 0x2000⟩
  have hs := pump_packet (s := init [p₁, p₂].flatten (0x2000 * 1) 2)
    (f := (BlockFifo.new 0x2000 2).writeStart.1) (r := r) rfl rfl rfl (Nat.le_refl _)
    (hlen ▸ by decide)
  generalize hse : bytesIn _ _ _ _ = s at hs
  have hreceived : s.received.length = 0x2000 := by
    rw [← hse]
    change ([] ++ [p₁, p₂].flatten.take 0x2000).length = _
    rw [List.nil_append, List.length_take, hlen]
    rfl
  have hincoming : s.incoming.length = 0x2000 := by
    rw [← hse]
    change ([p₁, p₂].flatten.drop 0x2000).length = _
    rw [List.length_drop, hlen]
  obtain ⟨hc, hp, hpump, hk, hl, hd, hf⟩ : s.caller = .idle ∧ s.client.partialCount = 0 ∧
      s.pump = .idle ∧ s.parsed = [] ∧ s.calls = [] ∧ s.client.buffer.done = false ∧
      s.client.buffer.fifo = (BlockFifo.new 0x2000 2).writeStart.1.writeComplete 0x2000 := by
    subst hse
    exact ⟨rfl, rfl, rfl, rfl, rfl, rfl, bytesIn_fifo ..⟩
  let t := { s with client := s.client.flush }
  have ht : step s .flush = some t := by
    simp only [step, hc, t]
  obtain ⟨hw, he, hr⟩ := reset_packet s.client.buffer.fifo (by rw [hf]; rfl)
    (by rw [hf]; rfl) (by rw [hf]; rfl)
  have hv := pump_packet (s := t) (r := r) hpump hd hw (Nat.le_refl _) (Nat.le_of_eq hincoming.symm)
  generalize hve : bytesIn t _ r _ = v at hv
  obtain ⟨hcv, hpv, hkv, hlv, hfv⟩ : v.caller = .idle ∧ v.client.partialCount = 0 ∧
      v.parsed = s.parsed ∧ v.calls = s.calls ∧ v.client.buffer.fifo =
        s.client.buffer.fifo.reset.writeStart.1.writeComplete 0x2000 := by
    subst hve
    rw [bytesIn_caller, bytesIn_partialCount, bytesIn_parsed, bytesIn_calls, bytesIn_fifo]
    exact ⟨hc, hp, rfl, rfl, rfl⟩
  obtain ⟨u, hu, _, _, _, _, hku, ws, tag, hws, hcalls⟩ :=
    receive_first hcv hpv (hfv ▸ he) ((congrArg BlockFifo.readStart hfv).trans hr)
  refine ⟨s, u, hs, Sys.run_cons_eq_some.2 ⟨t, ht, Sys.run_append_eq_some.2 ⟨v, hv, hu⟩⟩, ?_, ?_,
    ?_⟩
  · rw [hku, hkv, hk]
    rfl
  · rw [hcalls, hlv, hl, List.nil_append, samplesOf, List.flatMap_singleton, hws]
  · refine (pumpPacket_keepsBoundary rfl).concat hs (.cons ⟨hp, .inr (.inl ?_)⟩ ht
      ((pumpPacket_keepsBoundary ?_).concat hv (Sys.along_of_always ?_ _)))
    · rw [hreceived]
    · change s.received.length % 0x2000 = 0
      rw [hreceived]
    · intro a ha s
      simp only [List.mem_cons, List.not_mem_nil, or_false] at ha
      rcases ha with rfl | rfl | rfl | rfl | rfl | rfl <;> trivial

theorem flush_restarts_while_receiving :
    let pkts := [List.replicate 0x2000 (1 : UInt8), List.replicate 0x2000 2]
    ∃ s u, Sys.run step (init pkts.flatten (0x2000 * 1) 2) pumpPacket = some s ∧
      Sys.run step s (.flush :: firstSample) = some u ∧ u.parsed.length = 1 ∧
      (samplesOf u.calls).length = 1 ∧ Restarts pkts s u := by
  intro pkts
  have hlen₁ : (List.replicate 0x2000 (1 : UInt8)).length = 0x2000 := List.length_replicate
  have hlen₂ : (List.replicate 0x2000 (2 : UInt8)).length = 0x2000 := List.length_replicate
  obtain ⟨s, u, hs, hu, hk, hl, hkeeps⟩ := run_flushed hlen₁ hlen₂
  have hp : ∀ p ∈ pkts, p.length = 0x2000 := by
    intro p hp
    simp only [pkts, List.mem_cons, List.not_mem_nil, or_false] at hp
    rcases hp with rfl | rfl <;> exact List.length_replicate
  exact ⟨s, u, hs, hu, hk, hl, flush_restarts hp (by decide) (by decide) hkeeps hs hu⟩

/-- A `Flush` leaves the packet that is open open, and the next call goes on with it. -/
theorem flush_keeps_packet : ∃ s u,
    Sys.run step (init [List.replicate 0x2000 (0 : UInt8)].flatten (0x2000 * 1) 2) firstSample =
      some s ∧
    Sys.run step s [.flush, .receive 1, .receiveStep, .receiveStep, .receiveStep, .receiveStep] =
      some u ∧ ¬Restarts [List.replicate 0x2000 (0 : UInt8)] s u := by
  have hlen : (List.replicate 0x2000 (0 : UInt8)).length = 0x2000 := List.length_replicate
  obtain ⟨s, hs, hc, hp, hl, ⟨a, hb⟩, hk, ws, tag, hws, hcalls⟩ := run_firstSample hlen
  let t := { s with client := s.client.flush }
  have ht : step s .flush = some t := by
    simp only [step, hc, t]
  obtain ⟨u, hu, hcu, hku, ws', hws', hcalls'⟩ := receive_next (s := t) hc hp hl hb
  refine ⟨s, u, hs, Sys.run_cons_eq_some.2 ⟨t, ht, hu⟩, ?_⟩
  rintro ⟨old, new, hsorted, hlt, hold, hnew, later, hlater, hsamples, _⟩
  have hnil : new = [] := by
    have hnew' := congrArg List.length hnew
    rw [hku, List.length_append, List.length_map] at hnew'
    exact List.length_eq_zero_iff.1 (Nat.add_eq_left.1 hnew'.symm)
  have hlog : u.log = s.calls ++ [⟨1, ws', []⟩] := by
    rw [log_eq hcu, hcalls']
    exact List.append_nil _
  rw [hlog] at hlater
  rw [← List.append_cancel_left hlater, hnil] at hsamples
  have hlen' := hsamples.length_le
  rw [samplesOf, List.flatMap_singleton, hws'] at hlen'
  exact absurd hlen' (Nat.not_succ_le_zero 0)

end RxSystem
end Avs4000
