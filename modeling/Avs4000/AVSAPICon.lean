import Avs4000.ReadAvailable
import Mathlib.Data.List.Nodup
import Mathlib.Data.List.Perm.Subperm

namespace Avs4000
open Lines
set_option autoImplicit true

/-- What the writes of a request and `waitForBytesWritten` come to: an error, bytes that go out
after the wait, or bytes that are out. -/
inductive ReqResult
  | error
  | late
  | written

/-- What `call` returns: an empty object, `false`, what the server sent, or an exception of
`JSON.parse` instead. -/
inductive Rval (γ : Type)
  | empty
  | refused
  | value (v : γ)
  | thrown

/-- A call that came to `recvRSP`, with the request it had sent and what it read. -/
structure ApiCall (γ : Type) where
  request : Nat
  str : List UInt8
  rval : Rval γ

/-- Where `call` stands: `recvRSP` reads once more when it finds nothing. -/
inductive ApiPc
  | idle
  | recv (request : Nat)
  | again (request : Nat)

/-- An `AVSAPICon` and the script that calls it. The socket is null, or connected or not. Requests
are numbered as they are sent, and `first` is the first one that the connection can carry.
`incoming` is what the server has sent or will send on it, and `calls` are those made on it. -/
structure AVSAPICon (γ : Type) where
  socket : Option Bool
  requests : Nat
  first : Nat
  incoming : List UInt8
  buffer : List UInt8
  pc : ApiPc
  calls : List (ApiCall γ)

namespace ApiPc

def request : ApiPc → Option Nat
  | idle => none
  | recv k | again k => some k

end ApiPc

namespace AVSAPICon

def init : AVSAPICon γ := ⟨none, 0, 0, [], [], .idle, []⟩

/-- The most that `readLine` takes. -/
def maxLine : Nat := 128 * 1024

def readLine (buffer : List UInt8) : List UInt8 × List UInt8 :=
  let line := (Lines.readLine newline (buffer.take maxLine)).1
  (line, buffer.drop line.length)

/-- An old socket is closed first, and what it has not given out goes with it. -/
def connect (s : AVSAPICon γ) (connected : Bool) : AVSAPICon γ :=
  { s with
    socket := some connected, first := s.requests, incoming := [], buffer := [], calls := [] }

def disconnect (s : AVSAPICon γ) : AVSAPICon γ :=
  { s with socket := none, incoming := [], buffer := [] }

section
variable (reply : Nat → List UInt8) (parse : List UInt8 → Option (Bool × γ))

/-- The server answers every request in its turn. -/
def write (s : AVSAPICon γ) : AVSAPICon γ :=
  { s with requests := s.requests + 1, incoming := s.incoming ++ reply s.requests }

/-- `sendREQ` on a socket that is connected. -/
def sendREQ (s : AVSAPICon γ) : ReqResult → AVSAPICon γ
  | .error => s
  | .late => s.write reply
  | .written => { s.write reply with pc := .recv s.requests }

/-- The end of `call`. `parse` gives the response's first entry, as a comparison with `true`, and
its second one. -/
def callRval (str : List UInt8) : Rval γ :=
  if str.length = 0 then .refused
  else
    match parse str with
    | none => .thrown
    | some (true, rval) => .value rval
    | some (false, _) => .empty

def ret (s : AVSAPICon γ) (request : Nat) (str : List UInt8) : AVSAPICon γ :=
  { s with pc := .idle, calls := s.calls ++ [⟨request, str, callRval parse str⟩] }

def recvRSP (s : AVSAPICon γ) : Option (AVSAPICon γ) :=
  match s.pc with
  | .idle => none
  | .recv request =>
    if s.socket = some true then
      let (bytes, rest) := readLine s.buffer
      if bytes.length = 0 then some { s with pc := .again request }
      else some ({ s with buffer := rest }.ret parse request bytes)
    else some (s.ret parse request [])
  | .again request =>
    let (bytes, rest) := readLine s.buffer
    some ({ s with buffer := rest }.ret parse request bytes)

inductive Act
  | connect (connected : Bool)
  | disconnect
  | call (result : ReqResult) (connected : Bool)
  | recvRSP
  | arrive (n : Nat)
  | lost

/-- A call on a socket that is not connected connects it, and returns an empty object, as one whose
request was not written. -/
def step (s : AVSAPICon γ) : Act → Option (AVSAPICon γ)
  | .connect connected =>
    match s.pc with
    | .idle => some (s.connect connected)
    | _ => none
  | .disconnect =>
    match s.pc with
    | .idle => some s.disconnect
    | _ => none
  | .call result connected =>
    match s.pc with
    | .idle =>
      if s.socket = some true then some (s.sendREQ reply result) else some (s.connect connected)
    | _ => none
  | .recvRSP => s.recvRSP parse
  | .arrive n =>
    if s.socket = some true ∧ n ≤ s.incoming.length then some { s with
      incoming := s.incoming.drop n, buffer := s.buffer ++ s.incoming.take n }
    else none
  | .lost =>
    if s.socket = some true then some { s with socket := some false, incoming := [] } else none

end

/-- What the calls have read. -/
def taken (calls : List (ApiCall γ)) : List UInt8 := calls.flatMap (·.str)

/-- The responses to `n` requests. -/
def replies (reply : Nat → List UInt8) (first n : Nat) : List UInt8 :=
  (List.range' first n).flatMap reply

section
variable {reply : Nat → List UInt8} {parse : List UInt8 → Option (Bool × γ)} {s t : AVSAPICon γ}

@[simp] theorem taken_append (calls : List (ApiCall γ)) (c : ApiCall γ) :
    taken (calls ++ [c]) = taken calls ++ c.str := by
  rw [taken, List.flatMap_append, List.flatMap_singleton, taken]

theorem replies_succ (reply : Nat → List UInt8) (first n : Nat) :
    replies reply first (n + 1) = replies reply first n ++ reply (first + n) := by
  rw [replies, List.range'_1_concat, List.flatMap_append, List.flatMap_singleton, replies]

theorem readLine_eq (bs : List UInt8) : (readLine bs).1 ++ (readLine bs).2 = bs ∧
    (newline ∉ (readLine bs).1 ∨ IsLine newline (readLine bs).1) := by
  rw [readLine, ← List.prefix_iff_eq_append]
  rcases readLine_cases newline (bs.take maxLine) with ⟨hn, hr⟩ | ⟨l, more, hl, hb, hr⟩
  · rw [hr]
    exact ⟨List.take_prefix .., .inl hn⟩
  · rw [hr]
    refine ⟨List.IsPrefix.trans ?_ (List.take_prefix maxLine bs), .inr hl⟩
    exact hb ▸ List.prefix_append ..

/-- The calls on a connection take what it carries in order, each no more than a line. -/
structure Inv (reply : Nat → List UInt8) (parse : List UInt8 → Option (Bool × γ))
    (s : AVSAPICon γ) : Prop where
  fits : s.first ≤ s.requests
  sorted : (s.calls.map (·.request) ++ s.pc.request.toList).Pairwise (· < ·)
  range : ∀ k ∈ s.calls.map (·.request) ++ s.pc.request.toList, s.first ≤ k ∧ k < s.requests
  calls : ∀ c ∈ s.calls, (newline ∉ c.str ∨ IsLine newline c.str) ∧ c.rval = callRval parse c.str
  stream : taken s.calls ++ s.buffer ++ s.incoming <+:
    replies reply s.first (s.requests - s.first)
  all : s.socket = some true →
    taken s.calls ++ s.buffer ++ s.incoming = replies reply s.first (s.requests - s.first)

theorem init_inv : Inv reply parse init where
  fits := Nat.le_refl _
  sorted := .nil
  range _ hk := absurd hk List.not_mem_nil
  calls _ hc := absurd hc List.not_mem_nil
  stream := List.prefix_rfl
  all _ := rfl

theorem connect_inv (hp : s.pc = .idle) (connected : Bool) :
    Inv reply parse (s.connect connected) := by
  have hnone : s.requests - s.requests = 0 := Nat.sub_self _
  refine ⟨Nat.le_refl _, ?_, fun k hk => ?_, fun _ hc => absurd hc List.not_mem_nil, ?_,
    fun _ => ?_⟩
  · rw [AVSAPICon.connect, hp]
    exact .nil
  · rw [AVSAPICon.connect, hp] at hk
    exact absurd hk List.not_mem_nil
  · exact List.nil_prefix
  · simp only [AVSAPICon.connect, hnone]
    rfl

theorem Inv.disconnect (h : Inv reply parse s) : Inv reply parse s.disconnect where
  fits := h.fits
  sorted := h.sorted
  range := h.range
  calls := h.calls
  stream := by
    have hb := h.stream
    rw [List.append_assoc] at hb
    rw [AVSAPICon.disconnect, List.append_nil, List.append_nil]
    exact (List.prefix_append ..).trans hb
  all hc := by cases hc

theorem Inv.write (h : Inv reply parse s) (hc : s.socket = some true) :
    Inv reply parse (s.write reply) := by
  have hall : taken s.calls ++ s.buffer ++ (s.incoming ++ reply s.requests) =
      replies reply s.first (s.requests + 1 - s.first) := by
    rw [Nat.succ_sub h.fits, replies_succ, Nat.add_sub_cancel' h.fits, ← h.all hc,
      List.append_assoc _ s.incoming]
  refine ⟨Nat.le_succ_of_le h.fits, h.sorted, fun k hk => ?_, h.calls, ?_, fun _ => hall⟩
  · obtain ⟨hf, hlt⟩ := h.range k hk
    exact ⟨hf, Nat.lt_succ_of_lt hlt⟩
  · exact hall ▸ List.prefix_rfl

theorem Inv.sendREQ (h : Inv reply parse s) (hp : s.pc = .idle) (hc : s.socket = some true)
    (result : ReqResult) : Inv reply parse (s.sendREQ reply result) := by
  cases result with
  | error => exact h
  | late => exact h.write hc
  | written =>
    have hw := h.write hc
    have hidle : s.pc.request = none := by
      rw [hp]
      rfl
    have hold : ∀ k ∈ s.calls.map (·.request), s.first ≤ k ∧ k < s.requests :=
      fun k hk => h.range k (List.mem_append_left _ hk)
    refine ⟨hw.fits, ?_, fun k hk => ?_, hw.calls, hw.stream, hw.all⟩
    · have hs := h.sorted
      rw [hidle, Option.toList_none, List.append_nil] at hs
      refine List.pairwise_append.2 ⟨hs, List.pairwise_singleton .., fun k hk j hj => ?_⟩
      obtain rfl := List.mem_singleton.1 hj
      exact (hold k hk).2
    · rcases List.mem_append.1 hk with hk | hk
      · exact ⟨(hold k hk).1, Nat.lt_succ_of_lt (hold k hk).2⟩
      · obtain rfl := List.mem_singleton.1 hk
        exact ⟨h.fits, Nat.lt_succ_self _⟩

theorem Inv.ret (h : Inv reply parse s) (hp : s.pc.request = some request)
    (hb : bytes ++ rest = s.buffer) (hl : newline ∉ bytes ∨ IsLine newline bytes) :
    Inv reply parse ({ s with buffer := rest }.ret parse request bytes) := by
  have hreq : (s.calls ++ [(⟨request, bytes, callRval parse bytes⟩ : ApiCall γ)]).map
      (·.request) ++ [] = s.calls.map (·.request) ++ s.pc.request.toList := by
    rw [hp, List.append_nil, List.map_append]
    rfl
  have htaken : taken (s.calls ++ [⟨request, bytes, callRval parse bytes⟩]) ++ rest ++ s.incoming =
      taken s.calls ++ s.buffer ++ s.incoming := by
    rw [taken_append, ← hb, ← List.append_assoc]
  refine ⟨h.fits, hreq ▸ h.sorted, hreq ▸ h.range, fun c hc => ?_, htaken ▸ h.stream,
    fun hs => htaken.trans (h.all hs)⟩
  rcases List.mem_append.1 hc with hc | hc
  · exact h.calls c hc
  · obtain rfl := List.mem_singleton.1 hc
    exact ⟨hl, rfl⟩

theorem Inv.recvRSP (h : Inv reply parse s) (hs : s.recvRSP parse = some t) :
    Inv reply parse t := by
  obtain ⟨hb, hl⟩ := readLine_eq s.buffer
  unfold AVSAPICon.recvRSP at hs
  cases hp : s.pc with
  | idle =>
    rw [hp] at hs
    cases hs
  | recv request =>
    rw [hp] at hs
    dsimp only at hs
    split at hs
    · split at hs
      · cases hs
        have hsame : (ApiPc.again request).request = s.pc.request := by
          rw [hp]
          rfl
        exact ⟨h.fits, hsame ▸ h.sorted, hsame ▸ h.range, h.calls, h.stream, h.all⟩
      · cases hs
        exact h.ret (hp ▸ rfl) hb hl
    · cases hs
      exact h.ret (hp ▸ rfl) (List.nil_append _) (.inl List.not_mem_nil)
  | again request =>
    rw [hp] at hs
    cases hs
    exact h.ret (hp ▸ rfl) hb hl

theorem step_inv (h : Inv reply parse s) (hs : step reply parse s a = some t) :
    Inv reply parse t := by
  cases a with
  | connect connected =>
    simp only [step] at hs
    split at hs
    · next hp =>
      cases hs
      exact connect_inv hp connected
    · cases hs
  | disconnect =>
    simp only [step] at hs
    split at hs
    · cases hs
      exact h.disconnect
    · cases hs
  | call result connected =>
    simp only [step] at hs
    split at hs
    · next hp =>
      split at hs
      · next hc =>
        cases hs
        exact h.sendREQ hp hc result
      · cases hs
        exact connect_inv hp connected
    · cases hs
  | recvRSP => exact h.recvRSP hs
  | arrive n =>
    simp only [step] at hs
    split at hs
    · cases hs
      have hsame : taken s.calls ++ (s.buffer ++ s.incoming.take n) ++ s.incoming.drop n =
          taken s.calls ++ s.buffer ++ s.incoming := by
        rw [List.append_assoc, List.append_assoc, List.take_append_drop, ← List.append_assoc]
      exact ⟨h.fits, h.sorted, h.range, h.calls, hsame ▸ h.stream, fun hc => hsame.trans (h.all hc)⟩
    · cases hs
  | lost =>
    simp only [step] at hs
    split at hs
    · cases hs
      refine ⟨h.fits, h.sorted, h.range, h.calls, ?_, nofun⟩
      rw [List.append_nil]
      exact (List.prefix_append ..).trans h.stream
    · cases hs

theorem run_inv (hr : Sys.run (step reply parse) init acts = some s) : Inv reply parse s :=
  Sys.run_invariant (fun _ _ _ h hs => step_inv h hs) init_inv hr

/-- The requests whose calls read to the end of a line. -/
def ended (calls : List (ApiCall γ)) : List Nat :=
  (calls.filter fun c => decide (newline ∈ c.str)).map (·.request)

theorem count_taken {calls : List (ApiCall γ)}
    (h : ∀ c ∈ calls, newline ∉ c.str ∨ IsLine newline c.str) :
    (taken calls).count newline = (ended calls).length := by
  induction calls with
  | nil => rfl
  | cons c calls ih =>
    have ih := ih fun d hd => h d (List.mem_cons_of_mem _ hd)
    have hc := h c (List.mem_cons_self ..)
    rw [taken, List.flatMap_cons, List.count_append, ← taken, ih, ended, ended, List.filter_cons]
    by_cases hn : newline ∈ c.str
    · have hl := hc.resolve_left fun h => h hn
      rw [if_pos (decide_eq_true hn), hl.count, List.map_cons, List.length_cons, Nat.add_comm]
    · have hno : ¬decide (newline ∈ c.str) = true := fun h => hn (of_decide_eq_true h)
      rw [if_neg hno, List.count_eq_zero_of_not_mem hn, Nat.zero_add]

theorem mem_ended {calls : List (ApiCall γ)} :
    i ∈ ended calls ↔ ∃ d ∈ calls, d.request = i ∧ newline ∈ d.str := by
  rw [ended, List.mem_map]
  constructor
  · rintro ⟨d, hd, rfl⟩
    obtain ⟨hd, hn⟩ := List.mem_filter.1 hd
    exact ⟨d, hd, rfl, of_decide_eq_true hn⟩
  · rintro ⟨d, hd, rfl, hn⟩
    exact ⟨d, List.mem_filter.2 ⟨hd, decide_eq_true hn⟩, rfl⟩

theorem replies_add (reply : Nat → List UInt8) (first n r : Nat) :
    replies reply first (n + r) = replies reply first n ++ replies reply (first + n) r := by
  rw [replies, ← List.range'_append_1, List.flatMap_append, replies, replies]

theorem replies_eq (reply : Nat → List UInt8) (first n : Nat) :
    replies reply first n = ((List.range' first n).map reply).flatten := List.flatMap_def ..

section
variable {before after : List (ApiCall γ)} {c : ApiCall γ}

theorem Inv.earlier (h : Inv reply parse s) (hs : s.calls = before ++ c :: after) :
    (before.map (·.request)).Pairwise (· < ·) ∧ (s.first ≤ c.request ∧ c.request < s.requests) ∧
      ∀ d ∈ before, s.first ≤ d.request ∧ d.request < c.request := by
  have hsorted := (List.pairwise_append.1 h.sorted).1
  rw [hs, List.map_append, List.map_cons] at hsorted
  obtain ⟨hbefore, _, hlt⟩ := List.pairwise_append.1 hsorted
  have hrange (d : ApiCall γ) (hd : d ∈ s.calls) : s.first ≤ d.request ∧ d.request < s.requests :=
    h.range _ (List.mem_append_left _ (List.mem_map_of_mem hd))
  refine ⟨hbefore, hrange c ?_, fun d hd => ⟨(hrange d ?_).1, ?_⟩⟩
  · rw [hs]
    exact List.mem_append_right _ (List.mem_cons_self ..)
  · rw [hs]
    exact List.mem_append_left _ hd
  · exact hlt _ (List.mem_map_of_mem hd) _ (List.mem_cons_self ..)

theorem Inv.ended_subperm (h : Inv reply parse s) (hs : s.calls = before ++ c :: after) :
    (ended before).Nodup ∧
      (ended before).Subperm (List.range' s.first (c.request - s.first)) := by
  obtain ⟨hsorted, ⟨hfirst, _⟩, hlt⟩ := h.earlier hs
  have hended : (ended before).Pairwise (· < ·) :=
    hsorted.sublist (List.filter_sublist.map _)
  have hnodup : (ended before).Nodup := hended.imp Nat.ne_of_lt
  refine ⟨hnodup, List.subperm_of_subset hnodup fun i hi => ?_⟩
  obtain ⟨d, hd, rfl, _⟩ := mem_ended.1 hi
  rw [List.mem_range'_1, Nat.add_sub_cancel' hfirst]
  exact hlt d hd

theorem Inv.ended_eq_iff (h : Inv reply parse s) (hs : s.calls = before ++ c :: after) :
    s.first + (ended before).length = c.request ↔
      ∀ i, s.first ≤ i → i < c.request → i ∈ ended before := by
  obtain ⟨_, ⟨hfirst, _⟩, _⟩ := h.earlier hs
  obtain ⟨hnodup, hsub⟩ := h.ended_subperm hs
  have hlen : (List.range' s.first (c.request - s.first)).length = c.request - s.first :=
    List.length_range'
  constructor
  · intro he i hi hlt
    have hle : (List.range' s.first (c.request - s.first)).length ≤ (ended before).length := by
      omega
    have hperm := hsub.perm_of_length_le hle
    rw [hperm.mem_iff, List.mem_range'_1, Nat.add_sub_cancel' hfirst]
    exact ⟨hi, hlt⟩
  · intro hall
    have hsub' : (List.range' s.first (c.request - s.first)).Subperm (ended before) := by
      refine List.subperm_of_subset List.nodup_range' fun i hi => ?_
      rw [List.mem_range'_1, Nat.add_sub_cancel' hfirst] at hi
      exact hall i hi.1 hi.2
    have hge := hsub'.length_le
    have hle := hsub.length_le
    omega

/-- If all calls before have read a whole line, what they have read ends where a line does. -/
theorem taken_lines (hlines : ∀ k, IsLine newline (reply k))
    (hall : ∀ d ∈ before, IsLine newline d.str) (hu : newline ∉ u)
    (ht : taken before = replies reply k n ++ u) : u = [] := by
  rw [replies_eq, taken, List.flatMap_def] at ht
  refine lines_append_eq_nil (fun l hl => ?_) (fun l hl => ?_) hu ht
  · obtain ⟨d, hd, rfl⟩ := List.mem_map.1 hl
    exact hall d hd
  · obtain ⟨k, _, rfl⟩ := List.mem_map.1 hl
    exact hlines k

theorem Inv.place (h : Inv reply parse s) (hlines : ∀ k, IsLine newline (reply k))
    (hs : s.calls = before ++ c :: after) : ∃ u v, newline ∉ u ∧
      taken before = replies reply s.first (ended before).length ++ u ∧
      reply (s.first + (ended before).length) = u ++ c.str ++ v := by
  obtain ⟨_, ⟨hfirst, hc⟩, _⟩ := h.earlier hs
  have hle := (h.ended_subperm hs).2.length_le
  rw [List.length_range'] at hle
  have hmem (d : ApiCall γ) (hd : d ∈ before ++ c :: after) :
      newline ∉ d.str ∨ IsLine newline d.str := (h.calls d (hs ▸ hd)).1
  have hcount := count_taken fun d hd => hmem d (List.mem_append_left _ hd)
  generalize hn : (ended before).length = n at *
  obtain ⟨r, hr⟩ : ∃ r, s.requests - s.first = n + (1 + r) :=
    ⟨s.requests - s.first - n - 1, by omega⟩
  have hreplies : replies reply s.first (n + (1 + r)) =
      replies reply s.first n ++ (reply (s.first + n) ++ replies reply (s.first + n + 1) r) := by
    rw [replies_add, replies_add _ _ 1, replies_succ]
    rfl
  have htaken : taken before ++ c.str <+: replies reply s.first (n + (1 + r)) := by
    have hstream := h.stream
    rw [hs, hr, taken, List.flatMap_append, List.flatMap_cons, ← taken, ← List.append_assoc,
      List.append_assoc, List.append_assoc] at hstream
    exact (List.prefix_append ..).trans hstream
  have hall : ∀ l ∈ (List.range' s.first (n + (1 + r))).map reply, IsLine newline l := by
    intro l hl
    obtain ⟨k, _, rfl⟩ := List.mem_map.1 hl
    exact hlines k
  obtain ⟨u, hu, ht⟩ :=
    prefix_lines hall (replies_eq reply _ _ ▸ (List.prefix_append ..).trans htaken)
  rw [hcount, ← List.map_take, ← List.range'_append_1, List.take_left' List.length_range',
    ← replies_eq] at ht
  rw [ht, hreplies, List.append_assoc, List.prefix_append_right_inj] at htaken
  have hpiece : newline ∉ u ++ c.str ∨ IsLine newline (u ++ c.str) := by
    rcases hmem c (List.mem_append_right _ (List.mem_cons_self ..)) with hno | hl
    · exact .inl fun hm => (List.mem_append.1 hm).elim hu hno
    · exact .inr (.append hu hl)
  obtain ⟨v, hv⟩ := prefix_line (hlines _) hpiece htaken
  exact ⟨u, v, hu, ht, hv.symm⟩

end

/-- A call reads where the one before it left off, in the response `m`. That is its own exactly if
every request sent before it on the connection has had its call read to the end of a line, so that
a call that once found less than a line leaves all later ones behind. -/
theorem calls_lag (hlines : ∀ k, IsLine newline (reply k))
    (hr : Sys.run (step reply parse) init acts = some s) (hs : s.calls = before ++ c :: after) :
    ∃ m u v, s.first ≤ m ∧ m ≤ c.request ∧
      taken before = replies reply s.first (m - s.first) ++ u ∧ reply m = u ++ c.str ++ v ∧
      c.rval = callRval parse c.str ∧ (m = c.request → u = []) ∧
      (m = c.request ↔ ∀ i, s.first ≤ i → i < c.request →
        ∃ d ∈ before, d.request = i ∧ newline ∈ d.str) := by
  have h := run_inv hr
  obtain ⟨u, v, hu, ht, hv⟩ := h.place hlines hs
  obtain ⟨hsorted, ⟨hfirst, _⟩, hlt⟩ := h.earlier hs
  have hle := (h.ended_subperm hs).2.length_le
  have hiff := h.ended_eq_iff hs
  rw [List.length_range'] at hle
  refine ⟨s.first + (ended before).length, u, v, Nat.le_add_right .., by omega, ?_, hv, ?_, ?_, ?_⟩
  · rwa [Nat.add_sub_cancel_left]
  · exact (h.calls c (hs ▸ List.mem_append_right _ (List.mem_cons_self ..))).2
  · intro he
    refine taken_lines hlines (fun d hd => ?_) hu ht
    obtain ⟨hi, hd'⟩ := hlt d hd
    -- the call that has read to the end of a line for this request is the same one
    obtain ⟨e, hem, hreq, hn⟩ := mem_ended.1 (hiff.1 he d.request hi hd')
    have hnodup : (before.map (·.request)).Nodup := hsorted.imp Nat.ne_of_lt
    obtain rfl := List.inj_on_of_nodup_map hnodup hem hd hreq
    exact (h.calls e (hs ▸ List.mem_append_left _ hem)).1.resolve_left fun hno => hno hn
  · refine hiff.trans (forall_congr' fun i => forall_congr' fun _ => forall_congr' fun _ => ?_)
    exact mem_ended

/-- The first response comes after its call has given up, and the second call gets it. -/
theorem calls_lag_late :
    let reply : Nat → List UInt8 := fun k => [if k = 0 then 0x41 else 0x42, newline]
    let parse : List UInt8 → Option (Bool × UInt8) := fun bs => bs.head?.map fun b => (true, b)
    ∃ s c, Sys.run (step reply parse) init [.connect true, .call .written true, .recvRSP, .recvRSP,
        .arrive 2, .call .written true, .recvRSP] = some s ∧ s.calls.getLast? = some c ∧
      c.request = 1 ∧ c.str = reply 0 ∧
      ∃ m u v, m < c.request ∧ reply m = u ++ c.str ++ v ∧ c.rval = callRval parse c.str := by
  intro reply parse
  let c₀ : ApiCall UInt8 := ⟨0, [], .refused⟩
  let c₁ : ApiCall UInt8 := ⟨1, [0x41, newline], .value 0x41⟩
  obtain ⟨s, hr, hs⟩ : ∃ s, Sys.run (step reply parse) init [.connect true, .call .written true,
      .recvRSP, .recvRSP, .arrive 2, .call .written true, .recvRSP] = some s ∧
      s.calls = [c₀] ++ c₁ :: [] ∧ s.first = 0 := ⟨_, rfl, rfl, rfl⟩
  have hlines (k : Nat) : IsLine newline (reply k) := by
    refine ⟨[if k = 0 then 0x41 else 0x42], ?_, rfl⟩
    split <;> decide
  obtain ⟨m, u, v, _, hle, _, hv, hrval, _, hiff⟩ := calls_lag hlines hr hs.1
  refine ⟨s, c₁, hr, by rw [hs.1]; rfl, rfl, rfl, m, u, v, Nat.lt_of_le_of_ne hle fun he => ?_, hv,
    hrval⟩
  obtain ⟨d, hd, _, hn⟩ := hiff.1 he 0 (Nat.le_of_eq hs.2) Nat.zero_lt_one
  obtain rfl := List.mem_singleton.1 hd
  exact List.not_mem_nil hn

end

end AVSAPICon
end Avs4000
