import Avs4000.BlockSteps
import Avs4000.RxSamples
import Avs4000.V49Grammar

namespace Avs4000
open Sys Memory
set_option autoImplicit true

namespace Avs4000Rx

theorem addItemTag_yields (t : TimeTag) :
    Yields (fun tags => ∀ x ∈ tags, x = t ∧ x.valid = true) (addItemTag t) := by
  have hnone : ∀ x ∈ ([] : List TimeTag), x = t ∧ x.valid = true := nofun
  rw [addItemTag]
  split
  · next hv =>
    have hone : ∀ x ∈ [t], x = t ∧ x.valid = true := by
      intro x hx
      rw [List.mem_singleton.1 hx]
      exact ⟨rfl, hv⟩
    apply Yields.after
    intro s
    split
    · apply Yields.after
      intro _
      apply Yields.after
      intro o
      apply Yields.after
      intro s
      split
      · exact yields_pure hone
      · exact yields_pure hnone
    · exact yields_pure hone
  · exact yields_pure hnone

theorem addItemTags_yields (ts : List TimeTag) :
    Yields (fun tags => ∀ x ∈ tags, x ∈ ts ∧ x.valid = true) (addItemTags ts) := by
  induction ts with
  | nil => exact yields_pure nofun
  | cons t ts ih =>
    rw [addItemTags]
    refine (addItemTag_yields t).bind ?_
    intro tags htags
    refine ih.bind ?_
    intro more hmore
    refine yields_pure ?_
    intro x hx
    rcases List.mem_append.1 hx with hx | hx
    · obtain ⟨rfl, hv⟩ := htags x hx
      exact ⟨List.mem_cons_self .., hv⟩
    · obtain ⟨hm, hv⟩ := hmore x hx
      exact ⟨List.mem_cons_of_mem _ hm, hv⟩

theorem work_yields (noutputItems rval : Nat) (tList : List TimeTag) :
    Yields (fun r => ∀ n tags, r = some (n, tags) → ∀ x ∈ tags, x ∈ tList ∧ x.valid = true)
      (work noutputItems rval tList) := by
  rw [work]
  apply Yields.after
  intro noSig
  split
  · exact yields_pure nofun
  · apply Yields.after
    intro s
    apply Yields.after
    intro c
    apply Yields.after
    intro _
    split
    · exact yields_pure nofun
    · refine (addItemTags_yields tList).bind ?_
      intro tags htags
      refine yields_pure ?_
      intro n tags' he
      cases he
      exact htags

end Avs4000Rx

namespace RxSystem
open Frames

/-- `Init` finds the packet valid. -/
def Passes (bs : List UInt8) : Prop :=
  ∀ (p : V49Packet) m data, Mem.load m data 0x2000 = bs → (p.init m data 0x2000).isValid = true

/-- The tags returned so far. -/
def returnedTags (s : RxSystem) : List TimeTag := s.calls.flatMap (·.tList)

/-- The tag was returned, and was taken from the packet. There is one tag for each packet that is
parsed. -/
def TakenFrom (s : RxSystem) (t : TimeTag) (p : List UInt8) : Prop :=
  ∃ i : Nat, s.returnedTags[i]? = some t ∧ s.parsed[i]? = some p

/-- A tag marked as valid comes from a valid packet, and so does a tag that `work` publishes. -/
structure TagsValid (s : RxSystem) : Prop where
  returned : ∀ t p, s.TakenFrom t p → t.valid = true → Passes p
  published : ∀ call ∈ s.calls, ∀ o block noutputItems rval n tags block',
    Avs4000Rx.work noutputItems rval call.tList o block = .ok (some (n, tags), block') →
      ∀ t ∈ tags, ∀ p, s.TakenFrom t p → Passes p

theorem passes_iff (h : bs.length = 0x2000) : Passes bs ↔ V49Packet.Grammar bs := by
  constructor
  · intro hp
    obtain ⟨m, data, hload⟩ := Mem.exists_load 0 bs
    rw [h] at hload
    have hvalid := hp .new _ _ hload
    rw [V49Packet.isValid, V49Packet.init_valid_grammar, hload] at hvalid
    exact hvalid
  · intro hg p m data hload
    rw [V49Packet.isValid, V49Packet.init_valid_grammar, hload]
    exact hg

theorem tagsValid_of_returned (h : ∀ t p, TakenFrom s t p → t.valid = true → Passes p) :
    TagsValid s where
  returned := h
  published := by
    intro call _ o block noutputItems rval n tags block' hwork t ht p htaken
    have hvalid := Avs4000Rx.work_yields noutputItems rval call.tList o block _ _ hwork n tags rfl
    exact h t p htaken (hvalid t ht).2

theorem length_tagsOf (off : Nat) (ps : List (List UInt8)) :
    (tagsOf off ps).length = ps.length := by
  induction ps generalizing off with
  | nil => rfl
  | cons p ps ih => exact congrArg Nat.succ (ih _)

theorem length_callTags (n : Nat) (calls : List ReceiveCall) :
    (callTags n calls).length = (calls.flatMap (·.tList)).length := by
  induction calls generalizing n with
  | nil => rfl
  | cons c cs ih =>
    rw [callTags, List.length_append, List.length_map, ih, List.flatMap_cons, List.length_append]

theorem callTags_offset (n : Nat) (cs : List ReceiveCall) :
    (callTags n cs).map ({ · with offset := 0 }) =
      (cs.flatMap (·.tList)).map ({ · with offset := 0 }) := by
  induction cs generalizing n with
  | nil => rfl
  | cons c cs ih =>
    rw [callTags, List.map_append, ih, List.map_map, List.flatMap_cons, List.map_append]
    rfl

section
variable {pkts : List (List UInt8)}

/-- Without a `Flush` the packets are parsed in the order of the stream. -/
theorem Delivers.parsed (hp : ∀ p ∈ pkts, p.length = 0x2000) (h : Delivers pkts s) :
    ∃ n ≤ pkts.length, s.parsed = (List.range n).map (pkt pkts) := by
  obtain ⟨gone, ks, htrack, hgap⟩ := h.track
  by_cases hb : Begun s.client s.caller
  · obtain ⟨hk, hparsed, _⟩ := htrack.begun hb
    have hnext : gone.length / 0x2000 = ks.length := by
      have hlen := hgap.1
      omega
    refine ⟨ks.length + 1, hnext ▸ hk, ?_⟩
    rw [hparsed, hnext, List.range_succ, ← hgap.2]
  · refine ⟨ks.length, hgap.length_le hp htrack, ?_⟩
    rw [(htrack.closed hb).1, ← hgap.2]

theorem Delivers.returned_le (h : Delivers pkts s) : s.returnedTags.length ≤ s.parsed.length := by
  obtain ⟨gone, ks, htrack, _⟩ := h.track
  have hlen := congrArg List.length htrack.tags
  rw [length_callTags, length_tagsOf, log, List.flatMap_append, List.length_append] at hlen
  exact Nat.le_of_add_right_le (Nat.le_of_eq hlen)

theorem Delivers.length_returned (h : Delivers pkts s) :
    s.returnedTags.length = ((samplesOf s.calls).length + 2039) / 2040 := by
  have hlen := congrArg List.length h.tags
  rw [length_callTags, tagsFor, List.length_map, List.length_range] at hlen
  exact hlen

theorem Delivers.parsed_get (hp : ∀ p ∈ pkts, p.length = 0x2000) (h : Delivers pkts s)
    (hk : k < s.returnedTags.length) : k < pkts.length ∧ s.parsed[k]? = some (pkt pkts k) := by
  obtain ⟨n, hn, hparsed⟩ := h.parsed hp
  have hle := h.returned_le
  rw [hparsed, List.length_map, List.length_range] at hle
  have hkn := Nat.lt_of_lt_of_le hk hle
  refine ⟨Nat.lt_of_lt_of_le hkn hn, ?_⟩
  rw [hparsed, List.getElem?_map, List.getElem?_range hkn, Option.map_some]

/-- A tag carries the time of the packet it is taken from, and is marked as valid. -/
theorem Delivers.taken_tag (hp : ∀ p ∈ pkts, p.length = 0x2000) (h : Delivers pkts s)
    (ht : s.TakenFrom t p) : t = { tagOf 0 p with offset := t.offset } := by
  obtain ⟨k, htag, hparsed⟩ := ht
  obtain ⟨hk, _⟩ := List.getElem?_eq_some_iff.1 htag
  obtain ⟨_, hpkt⟩ := h.parsed_get hp hk
  cases hparsed.symm.trans hpkt
  have hmap := congrArg (·.map ({ · with offset := 0 })) h.tags
  have hget := congrArg (·[k]?) ((callTags_offset 0 s.calls).symm.trans hmap)
  rw [h.length_returned] at hk
  rw [returnedTags] at htag
  simp only [tagsFor, List.getElem?_map, htag, List.getElem?_range hk,
    Option.map_some, Option.some.injEq] at hget
  exact congrArg (fun x : TimeTag => { x with offset := t.offset }) hget

theorem Delivers.tagsValid_iff (hp : ∀ p ∈ pkts, p.length = 0x2000) (h : Delivers pkts s) :
    TagsValid s ↔
      ∀ k < ((samplesOf s.calls).length + 2039) / 2040, V49Packet.Grammar (pkt pkts k) := by
  rw [← h.length_returned]
  constructor
  · intro ht k hk
    obtain ⟨hlt, hparsed⟩ := h.parsed_get hp hk
    have htag := List.getElem?_eq_getElem hk
    have htaken : TakenFrom s _ _ := ⟨k, htag, hparsed⟩
    have hvalid := congrArg TimeTag.valid (h.taken_tag hp htaken)
    have hpasses := ht.returned _ _ htaken hvalid
    exact (passes_iff (pkt_length hp hlt)).1 hpasses
  · intro hg
    apply tagsValid_of_returned
    intro t p htaken _
    obtain ⟨k, htag, hp'⟩ := htaken
    obtain ⟨hk, _⟩ := List.getElem?_eq_some_iff.1 htag
    obtain ⟨hlt, hparsed⟩ := h.parsed_get hp hk
    cases hp'.symm.trans hparsed
    exact (passes_iff (pkt_length hp hlt)).2 (hg k hk)

/-- The tags that are returned, and with them those that are published, come from valid packets
exactly if all packets are valid that the samples returned so far are from. -/
theorem valid_tags_iff (hp : ∀ p ∈ pkts, p.length = 0x2000) (hq : 1 ≤ q) (hc : 2 ≤ c)
    (hf : ∀ a ∈ acts, a ≠ .flush)
    (hr : run step (init pkts.flatten (0x2000 * q) c) acts = some s) :
    TagsValid s ↔
      ∀ k < ((samplesOf s.calls).length + 2039) / 2040, V49Packet.Grammar (pkt pkts k) :=
  (run_delivers hp hq hc hf hr).tagsValid_iff hp

end

theorem firstSample_ne_flush : ∀ a ∈ firstSample, a ≠ .flush := by simp [firstSample]

/-- A packet as the transmitter makes it. -/
theorem valid_tags_iff_framed :
    let pkts := [V49Packet.packetBytes (V49Packet.txHeader 3 0 5 2) (List.replicate 8160 0)]
    ∃ s, run step (init pkts.flatten (0x2000 * 1) 2) firstSample = some s ∧
      s.returnedTags.length = 1 ∧ TagsValid s := by
  intro pkts
  have hlen := V49Packet.length_packetBytes (V49Packet.txHeader 3 0 5 2)
    (List.length_replicate : (List.replicate 8160 (0 : UInt8)).length = 8160)
  have hp : ∀ p ∈ pkts, p.length = 0x2000 := by
    intro p hp
    rw [List.mem_singleton.1 hp, hlen]
  obtain ⟨s, hr, _, _, _, _, _, ws, tag, hws, hcalls⟩ := run_firstSample hlen
  have hsamples : (samplesOf s.calls).length = 1 := by
    rw [hcalls, samplesOf, List.flatMap_singleton, hws]
  refine ⟨s, hr, ?_, (valid_tags_iff hp (by decide) (by decide) firstSample_ne_flush hr).2 ?_⟩
  · rw [returnedTags, hcalls]
    rfl
  · rw [hsamples]
    intro k hk
    have hzero : k = 0 := Nat.lt_one_iff.1 hk
    subst hzero
    exact V49Packet.grammar_packetBytes List.length_replicate

/-- A packet of zeros. -/
theorem zero_packet_tagged :
    ∃ s, run step (init [List.replicate 0x2000 0].flatten (0x2000 * 1) 2) firstSample = some s ∧
      ¬TagsValid s := by
  have hlen : (List.replicate 0x2000 (0 : UInt8)).length = 0x2000 := List.length_replicate
  have hp : ∀ p ∈ [List.replicate 0x2000 (0 : UInt8)], p.length = 0x2000 := by
    intro p hp
    rw [List.mem_singleton.1 hp, hlen]
  obtain ⟨s, hr, _, _, _, _, _, ws, tag, hws, hcalls⟩ := run_firstSample hlen
  have hsamples : (samplesOf s.calls).length = 1 := by
    rw [hcalls, samplesOf, List.flatMap_singleton, hws]
  refine ⟨s, hr, fun ht => ?_⟩
  have hdelivers := run_delivers hp (by decide) (by decide) firstSample_ne_flush hr
  rw [hdelivers.tagsValid_iff hp, hsamples] at ht
  exact absurd (ht 0 (by decide)).vrlp (by decide)

end RxSystem
end Avs4000
