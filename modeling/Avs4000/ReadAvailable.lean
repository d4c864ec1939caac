import Avs4000.Lib.Lines
import Avs4000.Lib.Run
import Avs4000.QVariant

namespace Avs4000
open Lines
set_option autoImplicit true

def newline : UInt8 := 0x0A

/-- The socket of a `TcpJSONClient` and the slot that reads it. `incoming` is what the server has
yet to send, `arrived` what has arrived and `buffer` what of it is unread. `reading` is there while
`ReadAvailable` waits for the rest of a line, with the bytes it has and the number of times in a
row it found nothing. `fired` counts the signals `readyRead`, and `announced` are the values `rsp`
had at each `ResponseAvailable`. -/
structure ReadSystem (γ : Type) where
  incoming : List UInt8
  arrived : List UInt8
  buffer : List UInt8
  reading : Option (List UInt8 × Nat)
  rsp : Option γ
  fired : Nat
  announced : List γ

namespace ReadSystem

def init (stream : List UInt8) : ReadSystem γ := ⟨stream, [], [], none, none, 0, []⟩

/-- Some bytes arrive. -/
def receive (s : ReadSystem γ) (n : Nat) : ReadSystem γ :=
  { s with
    incoming := s.incoming.drop n, arrived := s.arrived ++ s.incoming.take n
    buffer := s.buffer ++ s.incoming.take n }

/-- The number of times `ReadAvailable` looks for the rest of a line before it gives up. -/
def tries : Nat := 10

section
variable (fromJson : List UInt8 → Option γ)

/-- The end of `ReadAvailable`, once it has the bytes to parse. -/
def parse (s : ReadSystem γ) (bytes : List UInt8) : ReadSystem γ :=
  match fromJson bytes with
  | none => { s with reading := none }
  | some v => { s with reading := none, rsp := some v, announced := s.announced ++ [v] }

/-- The head of the outer loop of `ReadAvailable`. -/
def loop (s : ReadSystem γ) (bytes : List UInt8) : ReadSystem γ :=
  if newline ∈ bytes then s.parse fromJson bytes else { s with reading := some (bytes, 0) }

/-- The start of `ReadAvailable`. -/
def readAvailable (s : ReadSystem γ) : ReadSystem γ :=
  let (bytes, rest) := readLine newline s.buffer
  { s with rsp := none, buffer := rest, fired := s.fired + 1 }.loop fromJson bytes

/-- One turn of the inner loop of `ReadAvailable`, after 10 ms in the event loop. -/
def poll (s : ReadSystem γ) (bytes : List UInt8) (i : Nat) : ReadSystem γ :=
  let (B, rest) := readLine newline s.buffer
  if 0 < B.length then { s with buffer := rest }.loop fromJson (bytes ++ B)
  else if i + 1 < tries then { s with reading := some (bytes, i + 1) }
  else s.parse fromJson bytes

inductive Act
  | arrive (n : Nat)
  | poll

/-- `readyRead` is emitted when bytes arrive, but not while its slot is at work. -/
def step (s : ReadSystem γ) : Act → Option (ReadSystem γ)
  | .arrive n =>
    if 0 < n ∧ n ≤ s.incoming.length then
      match s.reading with
      | none => some ((s.receive n).readAvailable fromJson)
      | some _ => some (s.receive n)
    else none
  | .poll =>
    match s.reading with
    | none => none
    | some (bytes, i) => some (s.poll fromJson bytes i)

end

/-- The rest of a line comes before `ReadAvailable` gives up. -/
def Timely (s : ReadSystem γ) : Act → Prop
  | .arrive _ => True
  | .poll => ∀ bytes i, s.reading = some (bytes, i) → s.buffer = [] → i + 1 < tries

/-- No more than one line ends in the bytes that are there to read. -/
def OneLine (s : ReadSystem γ) : Act → Prop
  | .arrive n => s.reading = none → (s.buffer ++ s.incoming.take n).count newline ≤ 1
  | .poll => s.buffer.count newline ≤ 1

/-- Unless `ReadAvailable` is at work, each line that has arrived is announced. -/
def Framed (fromJson : List UInt8 → Option γ) (s : ReadSystem γ) : Prop :=
  s.reading = none → s.announced = (linesOf newline s.arrived).filterMap fromJson

/-- What `ReadAvailable` waits with. -/
def pending (s : ReadSystem γ) : List UInt8 := (s.reading.map Prod.fst).getD []

/-- The lines `old` have been read, each by one `readyRead`. -/
structure Inv (fromJson : List UInt8 → Option γ) (lines old : List (List UInt8))
    (s : ReadSystem γ) : Prop where
  stream : s.arrived ++ s.incoming = lines.flatten
  split : s.arrived = old.flatten ++ (s.pending ++ s.buffer)
  isLine : ∀ l ∈ old, IsLine newline l
  partLine : newline ∉ s.pending
  announced : s.announced = old.filterMap fromJson
  fired : s.fired = old.length + s.reading.toList.length

section
variable {fromJson : List UInt8 → Option γ} {lines old : List (List UInt8)} {s t : ReadSystem γ}

theorem init_inv (lines : List (List UInt8)) : Inv fromJson lines [] (init lines.flatten) where
  stream := rfl
  split := rfl
  isLine := fun _ h => False.elim (List.not_mem_nil h)
  partLine := List.not_mem_nil
  announced := rfl
  fired := rfl

theorem parse_some (h : fromJson bytes = some v) : s.parse fromJson bytes =
    { s with reading := none, rsp := some v, announced := s.announced ++ [v] } := by
  rw [parse, h]

theorem parse_none (h : fromJson bytes = none) :
    s.parse fromJson bytes = { s with reading := none } := by
  rw [parse, h]

/-- What `ReadAvailable` is about to look at comes after the lines it has read. -/
structure Reads (fromJson : List UInt8 → Option γ) (lines old : List (List UInt8))
    (bytes : List UInt8) (s : ReadSystem γ) : Prop where
  stream : s.arrived ++ s.incoming = lines.flatten
  split : s.arrived = old.flatten ++ (bytes ++ s.buffer)
  isLine : ∀ l ∈ old, IsLine newline l
  announced : s.announced = old.filterMap fromJson
  fired : s.fired = old.length + 1

theorem Reads.parse (h : Reads fromJson lines old l s) (hl : IsLine newline l) :
    Inv fromJson lines (old ++ [l]) (s.parse fromJson l) ∧
      (s.parse fromJson l).reading = none ∧ (s.parse fromJson l).buffer = s.buffer := by
  have hsplit : s.arrived = (old ++ [l]).flatten ++ ([] ++ s.buffer) := by
    rw [h.split, List.flatten_append, List.flatten_singleton, List.append_assoc, List.nil_append]
  have hline : ∀ l' ∈ old ++ [l], IsLine newline l' := by
    intro l' hm
    rcases List.mem_append.1 hm with hm | hm
    · exact h.isLine l' hm
    · rwa [List.mem_singleton.1 hm]
  have hfired : s.fired = (old ++ [l]).length + 0 := by
    rw [h.fired, List.length_append, List.length_singleton, Nat.add_zero]
  cases hv : fromJson l with
  | none =>
    rw [parse_none hv]
    refine ⟨⟨h.stream, hsplit, hline, List.not_mem_nil, ?_, hfired⟩, rfl, rfl⟩
    rw [List.filterMap_append, List.filterMap_cons_none hv, List.filterMap_nil, List.append_nil]
    exact h.announced
  | some v =>
    rw [parse_some hv]
    refine ⟨⟨h.stream, hsplit, hline, List.not_mem_nil, ?_, hfired⟩, rfl, rfl⟩
    rw [List.filterMap_append, List.filterMap_cons_some hv, List.filterMap_nil, h.announced]

theorem Reads.wait (h : Reads fromJson lines old bytes s) (hn : newline ∉ bytes) (i : Nat) :
    Inv fromJson lines old { s with reading := some (bytes, i) } :=
  ⟨h.stream, h.split, h.isLine, hn, h.announced, h.fired⟩

theorem loop_line (hl : IsLine newline l) : s.loop fromJson l = s.parse fromJson l := by
  rw [loop, if_pos hl.mem]

theorem loop_wait (hn : newline ∉ bytes) :
    s.loop fromJson bytes = { s with reading := some (bytes, 0) } := by
  rw [loop, if_neg hn]

/-- What a read comes to: it is at the end of a line, and more lines may be left, or it waits. -/
def Comes (fromJson : List UInt8 → Option γ) (lines : List (List UInt8)) (bs : List UInt8)
    (t : ReadSystem γ) : Prop :=
  ∃ old, Inv fromJson lines old t ∧
    (t.reading = none ∧ (newline ∉ t.buffer ↔ bs.count newline ≤ 1) ∨
      t.reading ≠ none ∧ bs.count newline ≤ 1)

theorem count_rest (hl : IsLine newline l) :
    newline ∉ rest ↔ (l ++ rest).count newline ≤ 1 := by
  rw [List.count_append, hl.count, ← List.count_eq_zero]
  omega

theorem Reads.line (h : Reads fromJson lines old (w ++ l) s) (hw : newline ∉ w)
    (hl : IsLine newline l) :
    Comes fromJson lines (l ++ s.buffer) (s.loop fromJson (w ++ l)) := by
  have hline := hl.append hw
  obtain ⟨hinv, hr, hb⟩ := h.parse hline
  rw [loop_line hline]
  exact ⟨_, hinv, .inl ⟨hr, hb ▸ count_rest hl⟩⟩

theorem readAvailable_comes (hi : Inv fromJson lines old s) (hr : s.reading = none) (n : Nat) :
    Comes fromJson lines (s.receive n).buffer ((s.receive n).readAvailable fromJson) := by
  have hp : s.pending = [] := by rw [pending, hr]; rfl
  have hreads {bytes rest : List UInt8} (he : (s.receive n).buffer = bytes ++ rest) :
      Reads fromJson lines old bytes
        { s.receive n with rsp := none, buffer := rest, fired := s.fired + 1 } := by
    refine ⟨?_, ?_, hi.isLine, hi.announced, ?_⟩
    · rw [← hi.stream]
      simp only [receive, List.append_assoc, List.take_append_drop]
    · change s.arrived ++ s.incoming.take n = old.flatten ++ (bytes ++ rest)
      rw [← he, hi.split, hp, List.nil_append, List.append_assoc]
      rfl
    · change s.fired + 1 = old.length + 1
      rw [hi.fired, hr]
      rfl
  rw [readAvailable]
  rcases readLine_cases newline (s.receive n).buffer with
    ⟨hn, he⟩ | ⟨l, rest, hl, he, hread⟩
  · simp only [he]
    rw [loop_wait hn]
    refine ⟨old, (hreads (List.append_nil _).symm).wait hn 0, .inr ⟨Option.some_ne_none _, ?_⟩⟩
    rw [List.count_eq_zero_of_not_mem hn]
    exact Nat.zero_le _
  · simp only [hread]
    have hread : Reads fromJson lines old ([] ++ l) _ := hreads he
    have hcomes := hread.line List.not_mem_nil hl
    rw [he]
    exact hcomes

theorem poll_comes (hi : Inv fromJson lines old s) (hr : s.reading = some (bytes, i))
    (ht : s.buffer = [] → i + 1 < tries) :
    Comes fromJson lines s.buffer (s.poll fromJson bytes i) := by
  have hpart : newline ∉ bytes := by
    have hp := hi.partLine
    rwa [pending, hr] at hp
  have hreads {B rest : List UInt8} (he : s.buffer = B ++ rest) :
      Reads fromJson lines old (bytes ++ B) { s with buffer := rest } := by
    refine ⟨hi.stream, ?_, hi.isLine, hi.announced, ?_⟩
    · rw [hi.split, pending, hr, he, List.append_assoc bytes]
      rfl
    · rw [hi.fired, hr]
      rfl
  rw [poll]
  rcases readLine_cases newline s.buffer with ⟨hn, he⟩ | ⟨l, rest, hl, he, hread⟩
  · have hcount : s.buffer.count newline ≤ 1 := by
      rw [List.count_eq_zero_of_not_mem hn]
      exact Nat.zero_le _
    simp only [he]
    split
    · have hn' : newline ∉ bytes ++ s.buffer := by
        intro hm
        exact (List.mem_append.1 hm).elim hpart hn
      rw [loop_wait hn']
      exact ⟨old, (hreads (List.append_nil _).symm).wait hn' 0,
        .inr ⟨Option.some_ne_none _, hcount⟩⟩
    · next hz =>
      have hb : s.buffer = [] := List.eq_nil_of_length_eq_zero (by omega)
      rw [if_pos (ht hb)]
      refine ⟨old, ⟨hi.stream, ?_, hi.isLine, hpart, hi.announced, ?_⟩,
        .inr ⟨Option.some_ne_none _, hcount⟩⟩
      · rw [hi.split, pending, hr]
        rfl
      · rw [hi.fired, hr]
        rfl
  · have hpos : 0 < l.length := List.length_pos_of_mem hl.mem
    simp only [hread, if_pos hpos]
    have hcomes := (hreads he).line hpart hl
    rw [he]
    exact hcomes

/-- Every step reads on, and leaves a line behind only where more than one ends in the bytes that
are there. -/
theorem step_framing (hi : Inv fromJson lines old s) (ht : Timely s a)
    (hs : step fromJson s a = some t) :
    ∃ old', Inv fromJson lines old' t ∧
      (t.reading = none ∧ (newline ∉ t.buffer ↔ OneLine s a) ∨ t.reading ≠ none ∧ OneLine s a) := by
  cases a with
  | arrive n =>
    simp only [step] at hs
    split at hs
    · split at hs
      · next hr =>
        cases hs
        have hone : OneLine s (.arrive n) ↔ (s.receive n).buffer.count newline ≤ 1 :=
          ⟨fun h => h hr, fun h _ => h⟩
        rw [hone]
        exact readAvailable_comes hi hr n
      · next bytes hr =>
        cases hs
        refine ⟨old, ⟨?_, ?_, hi.isLine, hi.partLine, hi.announced, hi.fired⟩, .inr ⟨?_, ?_⟩⟩
        · rw [← hi.stream]
          simp only [receive, List.append_assoc, List.take_append_drop]
        · change s.arrived ++ _ = old.flatten ++ (s.pending ++ (s.buffer ++ _))
          rw [hi.split]
          simp only [List.append_assoc]
        · exact hr ▸ Option.some_ne_none _
        · exact fun hn => by cases hr.symm.trans hn
    · cases hs
  | poll =>
    simp only [step] at hs
    split at hs
    · cases hs
    · next bytes i hr =>
      cases hs
      exact poll_comes hi hr (ht bytes i hr)

theorem Inv.linesOf_arrived (hi : Inv fromJson lines old s) (hl : ∀ l ∈ lines, IsLine newline l) :
    linesOf newline s.arrived <+: lines := by
  have hall := linesOf_lines hl []
  rw [List.append_nil, linesOf_partial List.not_mem_nil, List.append_nil, ← hi.stream] at hall
  rw [← hall]
  exact linesOf_prefix ..

theorem Inv.linesOf_eq (hi : Inv fromJson lines old s) (hr : s.reading = none) :
    linesOf newline s.arrived = old ++ linesOf newline s.buffer := by
  rw [hi.split, pending, hr]
  exact linesOf_lines hi.isLine s.buffer

/-- Everything is announced exactly if no line is left behind. -/
theorem Inv.framed_iff (hi : Inv fromJson lines old s)
    (hl : ∀ l ∈ lines, IsLine newline l ∧ (fromJson l).isSome = true) (hr : s.reading = none) :
    Framed fromJson s ↔ newline ∉ s.buffer := by
  have hpre := hi.linesOf_arrived fun l hm => (hl l hm).1
  rw [hi.linesOf_eq hr] at hpre
  have hlen : ((linesOf newline s.buffer).filterMap fromJson).length =
      (linesOf newline s.buffer).length :=
    List.filterMap_length_eq_length.2 fun l hm =>
      (hl l (hpre.subset (List.mem_append_right _ hm))).2
  rw [← linesOf_eq_nil]
  constructor
  · intro hf
    have he := congrArg List.length (hf hr)
    rw [hi.linesOf_eq hr, hi.announced, List.filterMap_append, List.length_append, hlen] at he
    exact List.eq_nil_of_length_eq_zero (by omega)
  · intro hn _
    rw [hi.linesOf_eq hr, hn, List.append_nil, hi.announced]

/-- The lines that arrive are announced one by one as they arrive exactly in the runs in which
never more than one line ends in the bytes that are there to read, and at the end all are announced
exactly if there was one `readyRead` for each. -/
theorem announced_iff (hl : ∀ l ∈ lines, IsLine newline l ∧ (fromJson l).isSome = true)
    (hr : Sys.run (step fromJson) (init lines.flatten) acts = some s)
    (ht : Sys.Along (step fromJson) Timely (init lines.flatten) acts) :
    ((∀ pre post u, acts = pre ++ post →
        Sys.run (step fromJson) (init lines.flatten) pre = some u → Framed fromJson u) ↔
      Sys.Along (step fromJson) OneLine (init lines.flatten) acts) ∧
      (s.incoming = [] → s.reading = none →
        (s.announced = lines.filterMap fromJson ↔ s.fired = lines.length)) := by
  constructor
  · refine Sys.forall_reached_iff_along
      (I := fun u => (∃ old, Inv fromJson lines old u) ∧ Framed fromJson u) (fun _ h => h.2) ?_
      ⟨⟨[], init_inv lines⟩, fun _ => rfl⟩ ht hr
    rintro u a v ⟨⟨old, hi⟩, _⟩ hta hs
    obtain ⟨old', hi', hend⟩ := step_framing hi hta hs
    rcases hend with ⟨hidle, hone⟩ | ⟨hbusy, hone⟩
    · rw [← hone, ← hi'.framed_iff hl hidle]
      exact ⟨fun hf => ⟨⟨old', hi'⟩, hf⟩, id⟩
    · exact ⟨fun _ => ⟨⟨old', hi'⟩, fun hidle => absurd hidle hbusy⟩, fun hn => absurd hone hn⟩
  · intro hend hidle
    obtain ⟨old, hi⟩ : ∃ old, Inv fromJson lines old s := by
      refine Sys.run_induction (I := fun u => ∃ old, Inv fromJson lines old u) ?_
        ⟨[], init_inv lines⟩ ht hr
      rintro u a v ⟨old, hi⟩ hta hs
      obtain ⟨old', hi', _⟩ := step_framing hi hta hs
      exact ⟨old', hi'⟩
    have hall : linesOf newline s.arrived = lines := by
      have hflat := hi.stream
      rw [hend, List.append_nil] at hflat
      have he := linesOf_lines (fun l hm => (hl l hm).1) []
      rwa [List.append_nil, linesOf_partial List.not_mem_nil, List.append_nil, ← hflat] at he
    have hsplit := hi.linesOf_eq hidle
    rw [hall] at hsplit
    have hlen := List.filterMap_length_eq_length.2 fun l hm => (hl l hm).2
    have hold : (old.filterMap fromJson).length = old.length :=
      List.filterMap_length_eq_length.2 fun l hm => (hl l (hsplit ▸ List.mem_append_left _ hm)).2
    have hfired : s.fired = old.length := by
      rw [hi.fired, hidle]
      rfl
    rw [hi.announced, hfired]
    constructor
    · intro he
      rw [← hlen, ← hold, he]
    · intro he
      have hnil : linesOf newline s.buffer = [] := by
        have hl' := congrArg List.length hsplit
        rw [List.length_append] at hl'
        exact List.eq_nil_of_length_eq_zero (by omega)
      rw [hsplit, hnil, List.append_nil]

end

/-- The JSON parser on the list of one digit, and on anything that is not JSON. -/
def digitList : List UInt8 → Option QVariant
  | [0x5B, d, 0x5D, 0x0A] =>
    if 0x30 ≤ d ∧ d ≤ 0x39 then some (.list [.ofUInt (UInt32.ofNat (d.toNat - 0x30))]) else none
  | _ => none

def line1 : List UInt8 := [0x5B, 0x31, 0x5D, 0x0A]

def line2 : List UInt8 := [0x5B, 0x32, 0x5D, 0x0A]

theorem isLine_line1 : IsLine newline line1 ∧ (digitList line1).isSome = true :=
  ⟨⟨[0x5B, 0x31, 0x5D], by decide, rfl⟩, rfl⟩

theorem isLine_line2 : IsLine newline line2 ∧ (digitList line2).isSome = true :=
  ⟨⟨[0x5B, 0x32, 0x5D], by decide, rfl⟩, rfl⟩

/-- One line that comes whole, and one in two parts. -/
theorem announced_iff_split : ∃ s : ReadSystem QVariant,
    Sys.run (step digitList) (init [line1, line2].flatten)
        [.arrive 4, .arrive 2, .arrive 2, .poll] = some s ∧
      s.announced = [line1, line2].filterMap digitList := by
  have hl : ∀ l ∈ [line1, line2], IsLine newline l ∧ (digitList l).isSome = true := by
    intro l hm
    simp only [List.mem_cons, List.not_mem_nil, or_false] at hm
    rcases hm with rfl | rfl
    · exact isLine_line1
    · exact isLine_line2
  have ht : Sys.Along (step digitList) Timely (init [line1, line2].flatten)
      [.arrive 4, .arrive 2, .arrive 2, .poll] := by
    refine .cons trivial rfl (.cons trivial rfl (.cons trivial rfl (.cons ?_ rfl trivial)))
    intro bytes i _ hb
    cases hb
  obtain ⟨s, hs, hend, hidle, hf⟩ : ∃ s : ReadSystem QVariant,
      Sys.run (step digitList) (init [line1, line2].flatten)
        [.arrive 4, .arrive 2, .arrive 2, .poll] = some s ∧
      s.incoming = [] ∧ s.reading = none ∧ s.fired = 2 := ⟨_, rfl, rfl, rfl, rfl⟩
  exact ⟨s, hs, ((announced_iff hl hs ht).2 hend hidle).2 hf⟩

/-- Of two lines that arrive together only the first is announced. -/
theorem second_line_left : ∃ s : ReadSystem QVariant,
    Sys.run (step digitList) (init [line1, line2].flatten) [.arrive 8] = some s ∧
      s.incoming = [] ∧ s.reading = none ∧
      s.announced ≠ [line1, line2].filterMap digitList := by
  refine ⟨_, rfl, rfl, rfl, fun h => ?_⟩
  exact absurd (congrArg List.length h) (by decide)

end ReadSystem
end Avs4000
