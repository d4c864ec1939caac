import Avs4000.Lib.Loop
import Avs4000.ReadAvailable

namespace Avs4000
open Sys
set_option autoImplicit true

/-- A connected socket, given by what its `write` returns the `i`-th time it is called: an error,
or the number of leading bytes it took. -/
structure QTcpSocket where
  write : Nat → List UInt8 → Option Nat
  took : ∀ i bytes n, bytes ≠ [] → write i bytes = some n → 1 ≤ n ∧ n ≤ bytes.length

/-- Where a thread stands in a loop that writes a request, with what is left in `bytes`, what the
socket took and the number of writes so far. -/
inductive SendReqPc
  | loop (bytes written : List UInt8) (writes : Nat)
  | failed
  | done (written : List UInt8)

namespace QTcpSocket

/-- A turn of the loop that both functions have. `more` is appended in front of every write. -/
def writeTurn (more : List UInt8) (k : QTcpSocket) : SendReqPc → SendReqPc
  | .loop bytes written writes =>
    if 0 < bytes.length then
      let bytes := bytes ++ more
      match k.write writes bytes with
      | none => .failed
      | some rval => .loop (bytes.drop rval) (written ++ bytes.take rval) (writes + 1)
    else .done written
  | pc => pc

/-- The loop of `AVSAPICon::sendREQ`. -/
def sendREQ : QTcpSocket → SendReqPc → SendReqPc := writeTurn [newline]

def sendREQStart (req : List UInt8) : SendReqPc := .loop req [] 0

/-- The loop of `TcpJSONClient::WriteREQ`. -/
def writeREQ : QTcpSocket → SendReqPc → SendReqPc := writeTurn []

def writeREQStart (req : List UInt8) : SendReqPc := .loop (req ++ [newline]) [] 0

end QTcpSocket

namespace SendReqPc

def Ended : SendReqPc → Prop
  | loop .. => False
  | failed | done _ => True

end SendReqPc

/-- The loop comes to its end, and if no error is returned the request and one newline are
written. -/
def FramesOnce (turn : SendReqPc → SendReqPc) (start : SendReqPc) (req : List UInt8) : Prop :=
  ∃ t, Comes turn start t ∧ t.Ended ∧ ∀ written, t = .done written → written = req ++ [newline]

/-- With `bytes` left in front of the `i`-th write, some write fails before one takes all it is
given. -/
inductive QTcpSocket.Fails (k : QTcpSocket) : Nat → List UInt8 → Prop
  | now (h : k.write i (bytes ++ [newline]) = none) : Fails k i bytes
  | later (h : k.write i (bytes ++ [newline]) = some n) (hn : n ≤ bytes.length)
    (hl : Fails k (i + 1) ((bytes ++ [newline]).drop n)) : Fails k i bytes

/-- The first write takes the request with its newline. -/
def QTcpSocket.TakesAll (k : QTcpSocket) (req : List UInt8) : Prop :=
  k.write 0 (req ++ [newline]) = some (req.length + 1)

namespace QTcpSocket
variable {k : QTcpSocket}

theorem writeTurn_none (hb : bytes ≠ []) (h : k.write i (bytes ++ more) = none) :
    k.writeTurn more (.loop bytes written i) = .failed := by
  rw [writeTurn, if_pos (List.length_pos_of_ne_nil hb)]
  simp only [h]

theorem writeTurn_some (hb : bytes ≠ []) (h : k.write i (bytes ++ more) = some n) :
    k.writeTurn more (.loop bytes written i) =
      .loop ((bytes ++ more).drop n) (written ++ (bytes ++ more).take n) (i + 1) := by
  rw [writeTurn, if_pos (List.length_pos_of_ne_nil hb)]
  simp only [h]

theorem writeTurn_nil : k.writeTurn more (.loop [] written i) = .done written := rfl

theorem writeREQ_comes (bytes written : List UInt8) (i : Nat) :
    ∃ t, Comes k.writeREQ (.loop bytes written i) t ∧ t.Ended ∧
      ∀ w, t = .done w → w = written ++ bytes := by
  induction hn : bytes.length using Nat.strongRecOn generalizing bytes written i with
  | _ n ih =>
    by_cases hb : bytes = []
    · subst hb
      refine ⟨.done written, ?_, trivial, ?_⟩
      · apply Comes.head
        rw [writeREQ, writeTurn_nil]
        exact .refl ..
      · intro w hw
        cases hw
        rw [List.append_nil]
    · cases hw : k.write i (bytes ++ []) with
      | none =>
        refine ⟨.failed, ?_, trivial, nofun⟩
        apply Comes.head
        rw [writeREQ, writeTurn_none hb hw]
        exact .refl ..
      | some m =>
        have hturn : k.writeTurn [] (.loop bytes written i) = _ := writeTurn_some hb hw
        rw [List.append_nil] at hw hturn
        obtain ⟨hpos, hle⟩ := k.took i bytes m hb hw
        have hlt : (bytes.drop m).length < n := by
          rw [List.length_drop]
          omega
        obtain ⟨t, hc, he, hd⟩ := ih _ hlt (bytes.drop m) (written ++ bytes.take m) (i + 1) rfl
        refine ⟨t, ?_, he, ?_⟩
        · apply Comes.head
          rw [writeREQ, hturn]
          exact hc
        · intro w hw
          rw [hd w hw, List.append_assoc, List.take_append_drop]

theorem writeREQ_framesOnce (k : QTcpSocket) (req : List UInt8) :
    FramesOnce k.writeREQ (writeREQStart req) req := by
  obtain ⟨t, hc, he, hd⟩ := writeREQ_comes (k := k) (req ++ [newline]) [] 0
  exact ⟨t, hc, he, hd⟩

/-- Where the loop of `sendREQ` may be. Each write adds a byte to what there is to write, so that
only a single one leaves it at the request and one newline. -/
def Tracked (k : QTcpSocket) (req : List UInt8) : SendReqPc → Prop
  | .loop bytes written i => written.length + bytes.length = req.length + i ∧
    (i = 0 → bytes = req) ∧ (bytes = [] → i = 1 → k.TakesAll req) ∧
    (bytes ≠ [] → k.Fails i bytes → k.Fails 0 req)
  | .failed => k.Fails 0 req
  | .done written => written.length = req.length + 1 → k.TakesAll req

theorem tracked_turn (req : List UInt8) (s : SendReqPc) (h : k.Tracked req s) :
    k.Tracked req (k.sendREQ s) := by
  cases s with
  | failed => exact h
  | done written => exact h
  | loop bytes written i =>
    obtain ⟨hlen, hstart, hone, hfail⟩ := h
    by_cases hb : bytes = []
    · subst hb
      intro hw
      rw [hw, List.length_nil, Nat.add_zero] at hlen
      exact hone rfl (Nat.add_left_cancel hlen).symm
    · cases hw : k.write i (bytes ++ [newline]) with
      | none =>
        rw [sendREQ, writeTurn_none hb hw]
        exact hfail hb (.now hw)
      | some n =>
        have hne : bytes ++ [newline] ≠ [] := List.append_ne_nil_of_left_ne_nil hb _
        have hle := (k.took i _ n hne hw).2
        rw [List.length_append, List.length_singleton] at hle
        rw [sendREQ, writeTurn_some hb hw]
        refine ⟨?_, nofun, ?_, ?_⟩
        · rw [List.length_append, List.length_take, List.length_drop, List.length_append,
            List.length_singleton]
          omega
        · intro hnil hi
          obtain rfl := Nat.succ.inj hi
          obtain rfl := hstart rfl
          have hge := List.drop_eq_nil_iff.1 hnil
          rw [List.length_append, List.length_singleton] at hge
          rw [TakesAll, hw, Nat.le_antisymm hle hge]
        · intro hnil hl
          apply hfail hb
          apply Fails.later hw _ hl
          by_contra hgt
          apply hnil
          apply List.drop_eq_nil_of_le
          rw [List.length_append, List.length_singleton]
          omega

theorem sendREQ_takesAll (hne : req ≠ []) (h : k.TakesAll req) :
    Comes k.sendREQ (sendREQStart req) (.done (req ++ [newline])) := by
  have hlen : (req ++ [newline]).length = req.length + 1 := by
    rw [List.length_append, List.length_singleton]
  apply Comes.head
  rw [sendREQ, sendREQStart, writeTurn_some hne h, ← hlen, List.drop_length, List.take_length]
  apply Comes.head
  exact .refl ..

theorem sendREQ_fails (h : k.Fails i bytes) (hne : bytes ≠ []) (written : List UInt8) :
    Comes k.sendREQ (.loop bytes written i) .failed := by
  induction h generalizing written with
  | now hw =>
    apply Comes.head
    rw [sendREQ, writeTurn_none hne hw]
    exact .refl ..
  | later hw hn hl ih =>
    apply Comes.head
    rw [sendREQ, writeTurn_some hne hw]
    apply ih
    intro hnil
    have hge := List.drop_eq_nil_iff.1 hnil
    rw [List.length_append, List.length_singleton] at hge
    omega

theorem sendREQ_framesOnce_iff (hne : req ≠ []) :
    FramesOnce k.sendREQ (sendREQStart req) req ↔ k.TakesAll req ∨ k.Fails 0 req := by
  constructor
  · rintro ⟨t, hc, he, hd⟩
    have hstart : k.Tracked req (sendREQStart req) :=
      ⟨Nat.zero_add _, fun _ => rfl, fun hnil => absurd hnil hne, fun _ h => h⟩
    have ht := hc.invariant (tracked_turn req) hstart
    cases t with
    | loop => exact he.elim
    | failed => exact .inr ht
    | done written =>
      left
      apply ht
      rw [hd written rfl, List.length_append, List.length_singleton]
  · rintro (h | h)
    · refine ⟨_, sendREQ_takesAll hne h, trivial, ?_⟩
      intro written hw
      cases hw
      rfl
    · exact ⟨_, sendREQ_fails h hne [], trivial, nofun⟩

/-- `WriteREQ` frames every request once, and `sendREQ` does exactly if its first write takes
everything or one of its writes fails before some other takes all it is given. -/
theorem frames_once_iff (k k' : QTcpSocket) (hne : req ≠ []) :
    FramesOnce k.sendREQ (sendREQStart req) req ∧ FramesOnce k'.writeREQ (writeREQStart req) req ↔
      k.TakesAll req ∨ k.Fails 0 req := by
  rw [sendREQ_framesOnce_iff hne, and_iff_left (writeREQ_framesOnce k' req)]

/-- A socket that takes everything it is given. -/
def takesEverything : QTcpSocket where
  write _ bytes := some bytes.length
  took := by
    intro i bytes n hb h
    cases h
    exact ⟨List.length_pos_of_ne_nil hb, Nat.le_refl _⟩

/-- A socket that takes one byte at first, and later everything. -/
def takesOneFirst : QTcpSocket where
  write i bytes := some (if i = 0 then 1 else bytes.length)
  took := by
    intro i bytes n hb h
    have hpos := List.length_pos_of_ne_nil hb
    cases h
    split
    · exact ⟨Nat.le_refl 1, hpos⟩
    · exact ⟨hpos, Nat.le_refl _⟩

theorem frames_once_iff_whole :
    FramesOnce takesEverything.sendREQ (sendREQStart [0x5B, 0x5D]) [0x5B, 0x5D] ∧
      FramesOnce takesOneFirst.writeREQ (writeREQStart [0x5B, 0x5D]) [0x5B, 0x5D] :=
  (frames_once_iff takesEverything takesOneFirst (by decide)).2 (.inl rfl)

/-- After a short write the request ends in two newlines. -/
theorem short_write_repeats_newline :
    Comes takesOneFirst.sendREQ (sendREQStart [0x5B, 0x5D])
      (.done [0x5B, 0x5D, newline, newline]) ∧
      ¬FramesOnce takesOneFirst.sendREQ (sendREQStart [0x5B, 0x5D]) [0x5B, 0x5D] := by
  refine ⟨⟨3, rfl⟩, ?_⟩
  rw [sendREQ_framesOnce_iff (by decide)]
  rintro (h | h)
  · cases h
  · rcases h with h | ⟨h, hn, hl⟩
    · cases h
    · cases h
      rcases hl with h | ⟨h, hn, hl⟩
      · cases h
      · cases h
        exact absurd hn (by decide)

end QTcpSocket
end Avs4000
