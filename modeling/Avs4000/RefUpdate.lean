import Avs4000.BlockSteps

namespace Avs4000
open TcpJSONClient
set_option autoImplicit true

/-- The request for the update count. -/
def countReq : List QVariant := callReq "GET" (.string "ref.updateCount")

/-- The requests with the `n` polls after them. -/
def polls (requests : List (List QVariant)) (n : Nat) : List (List QVariant) :=
  requests ++ List.replicate n countReq

/-- A poll that succeeds with the count. -/
def Outcome.Reports (x : Outcome) (count : UInt32) : Prop :=
  x.result.success = true ∧ ∃ v, x.result.rval = some v ∧ v.isValid = true ∧ v.toUInt = count

/-- A poll that times out, has an error for a reply or is diverted to the busy queue. -/
def Outcome.Fails (x : Outcome) : Prop := x.result.success = false ∨ x = .busy

/-- A server whose count does not decrease. A poll fails or gives the count there is. -/
structure RefServer (server : List (List QVariant) → Outcome)
    (count : List (List QVariant) → UInt32) : Prop where
  mono (requests more : List (List QVariant)) : count requests ≤ count (requests ++ more)
  poll (requests : List (List QVariant)) (n : Nat) :
    (server (polls requests (n + 1))).Reports (count (polls requests (n + 1))) ∨
      (server (polls requests (n + 1))).Fails

namespace AVS4000Client

/-- How both blocks wait for an update of the reference. It gives the count read at first, the
result of the wait, and the count that is left. -/
def startUpWait (msTimeout : UInt32) : Calls (UInt32 × Bool × UInt32) := do
  let updateCount ← getUpdateCount
  let r ← waitForRefUpdate updateCount msTimeout
  return (updateCount, r)

/-- The wait returns true only if the count has increased since the first poll, and gives the new
count. When it returns false the count is left as it was. -/
def NoFalsePositive (count : List (List QVariant) → UInt32) (requests : List (List QVariant))
    (r : (UInt32 × Bool × UInt32) × List (List QVariant)) : Prop :=
  (r.1.2.1 = true → count (polls requests 1) < count r.2 ∧ r.1.2.2 = count r.2) ∧
  (r.1.2.1 = false → r.1.2.2 = r.1.1)

/-- The first poll succeeds, or the count is still 0 then, or the first of the later polls that
succeeds finds the count increased. -/
def FirstPollCounts (server : List (List QVariant) → Outcome)
    (count : List (List QVariant) → UInt32) (requests : List (List QVariant))
    (msTimeout : UInt32) : Prop :=
  (server (polls requests 1)).Reports (count (polls requests 1)) ∨ count (polls requests 1) = 0 ∨
    ∀ k ≤ msTimeout.toNat / 100, (∀ j < k, (server (polls requests (j + 2))).Fails) →
      (server (polls requests (k + 2))).Reports (count (polls requests (k + 2))) →
      count (polls requests 1) < count (polls requests (k + 2))

/-- What a poll is read as. -/
def readCount (x : Outcome) : UInt32 :=
  let count := if x.result.success then x.result.rval.getD .invalid else .map []
  if count.isValid then count.toUInt else 0

theorem readCount_reports (h : Outcome.Reports x c) : readCount x = c := by
  obtain ⟨hs, v, hv, hvalid, rfl⟩ := h
  simp only [readCount, hs, hv, hvalid, if_true, Option.getD_some]

theorem readCount_fails (h : Outcome.Fails x) : readCount x = 0 := by
  rcases h with hs | rfl
  · simp only [readCount, hs, Bool.false_eq_true, if_false]
    rfl
  · rfl

theorem polls_succ (requests : List (List QVariant)) (n : Nat) :
    polls requests (n + 1) = polls requests n ++ [countReq] := by
  rw [polls, List.replicate_succ', ← List.append_assoc, polls]

theorem getUpdateCount_polls (o : Outside) (requests : List (List QVariant)) (n : Nat) :
    getUpdateCount o (polls requests n) =
      (readCount (o.server (polls requests (n + 1))), polls requests (n + 1)) := by
  rw [polls_succ]
  rfl

/-- The polls come to an end at the first that is read as a larger count, or with the time. -/
theorem pollUpdateCount_comes (o : Outside) (requests : List (List QVariant)) (refCount : UInt32)
    (n i : Nat) : ∃ k ≤ n,
      pollUpdateCount refCount n (readCount (o.server (polls requests i))) o (polls requests i) =
        (readCount (o.server (polls requests (k + i))), polls requests (k + i)) ∧
      (∀ j < k, ¬refCount < readCount (o.server (polls requests (j + i)))) ∧
      (k < n → refCount < readCount (o.server (polls requests (k + i)))) := by
  induction n generalizing i with
  | zero =>
    refine ⟨0, Nat.le_refl 0, ?_, nofun, nofun⟩
    rw [Nat.zero_add]
    rfl
  | succ n ih =>
    by_cases hlt : refCount < readCount (o.server (polls requests i))
    · refine ⟨0, Nat.zero_le _, ?_, nofun, fun _ => ?_⟩
      · rw [pollUpdateCount, if_pos hlt, Nat.zero_add]
        rfl
      · rw [Nat.zero_add]
        exact hlt
    · obtain ⟨k, hk, heq, hbefore, hat⟩ := ih (i + 1)
      have hi : k + (i + 1) = k + 1 + i := by omega
      rw [hi] at heq hat
      refine ⟨k + 1, Nat.succ_le_succ hk, ?_, ?_, ?_⟩
      · rw [pollUpdateCount, if_neg hlt, ← heq]
        change (getUpdateCount >>= pollUpdateCount refCount n) o (polls requests i) = _
        change pollUpdateCount refCount n (getUpdateCount o (polls requests i)).1 o
          (getUpdateCount o (polls requests i)).2 = _
        rw [getUpdateCount_polls]
      · intro j hj
        cases j with
        | zero =>
          rw [Nat.zero_add]
          exact hlt
        | succ j =>
          have hij : j + (i + 1) = j + 1 + i := by omega
          have hbeforej := hbefore j (Nat.lt_of_succ_lt_succ hj)
          rw [hij] at hbeforej
          exact hbeforej
      · intro hk
        exact hat (Nat.lt_of_succ_lt_succ hk)

theorem startUpWait_comes (o : Outside) (requests : List (List QVariant)) (msTimeout : UInt32) :
    ∃ k ≤ msTimeout.toNat / 100,
      let c₀ := readCount (o.server (polls requests 1))
      let c := readCount (o.server (polls requests (k + 2)))
      startUpWait msTimeout o requests =
        ((c₀, if c₀ < c then (true, c) else (false, c₀)), polls requests (k + 2)) ∧
      (∀ j < k, ¬c₀ < readCount (o.server (polls requests (j + 2)))) ∧
      (k < msTimeout.toNat / 100 → c₀ < c) := by
  have hzero : polls requests 0 = requests := List.append_nil _
  have hfirst := getUpdateCount_polls o requests 0
  have hsecond := getUpdateCount_polls o requests 1
  rw [hzero] at hfirst
  obtain ⟨k, hk, heq, hbefore, hat⟩ := pollUpdateCount_comes o requests
    (readCount (o.server (polls requests 1))) (msTimeout.toNat / 100) 2
  refine ⟨k, hk, ?_, hbefore, hat⟩
  have hwait : startUpWait msTimeout o requests =
      let first := getUpdateCount o requests
      let second := getUpdateCount o first.2
      let last := pollUpdateCount first.1 (msTimeout.toNat / 100) second.1 o second.2
      ((first.1, if first.1 < last.1 then (true, last.1) else (false, first.1)), last.2) :=
    rfl
  rw [hwait, hfirst]
  dsimp only
  rw [hsecond, heq]

theorem updateOrWait_eq {s : SyncBlock P} {p : CommonParams} (hp : p.refMaster = false)
    (hc : s.client = some c) :
    SyncBlock.updateOrWait p o s =
      .ok ((), { s with
        updateCount := (startUpWait 20000 o s.requests).1.2.2
        requests := (startUpWait 20000 o s.requests).2 }) := by
  rw [SyncBlock.updateOrWait, hp, if_neg Bool.false_ne_true, SyncBlock.onClient]
  rcases s with ⟨params, updateCount, client, later, requests, signals⟩
  cases hc
  rfl

theorem mono_polls {server : List (List QVariant) → Outcome} (hs : RefServer server count)
    (requests : List (List QVariant)) (i n : Nat) :
    count (polls requests i) ≤ count (polls requests (i + n)) := by
  rw [polls, polls, List.replicate_add, ← List.append_assoc]
  exact hs.mono ..

theorem reports_of_read (hs : RefServer server count) (n : Nat)
    (h : c < readCount (server (polls requests (n + 1)))) :
    (server (polls requests (n + 1))).Reports (count (polls requests (n + 1))) := by
  rcases hs.poll requests n with hr | hf
  · exact hr
  · rw [readCount_fails hf] at h
    exact absurd h (Nat.not_lt_zero _)

theorem count_pos (hs : RefServer server count) (hc : count (polls requests 1) ≠ 0) (j : Nat) :
    0 < count (polls requests (j + 2)) := by
  have hle := mono_polls hs requests 1 (j + 1)
  rw [Nat.add_comm 1 (j + 1)] at hle
  have hpos : 0 < count (polls requests 1) := Nat.pos_of_ne_zero fun h0 =>
    hc (UInt32.toNat_inj.1 h0)
  exact UInt32.lt_of_lt_of_le hpos hle

theorem fails_of_read (hs : RefServer server count) (hc : count (polls requests 1) ≠ 0) (j : Nat)
    (h : ¬0 < readCount (server (polls requests (j + 2)))) :
    (server (polls requests (j + 2))).Fails := by
  rcases hs.poll requests (j + 1) with hr | hf
  · rw [readCount_reports hr] at h
    exact absurd (count_pos hs hc j) h
  · exact hf

/-- Once the count is not 0 the polls that wait for more than 0 end at the first that succeeds. -/
theorem ends_at_report (hs : RefServer server count) (hc : count (polls requests 1) ≠ 0)
    (hbefore : ∀ j < k, ¬0 < readCount (server (polls requests (j + 2))))
    (hat : k < n → 0 < readCount (server (polls requests (k + 2)))) (hle : k' ≤ n)
    (hfails : ∀ j < k', (server (polls requests (j + 2))).Fails)
    (hr : (server (polls requests (k' + 2))).Reports (count (polls requests (k' + 2)))) :
    k = k' := by
  rcases Nat.lt_trichotomy k k' with hlt | he | hlt
  · have hpos := hat (Nat.lt_of_lt_of_le hlt hle)
    rw [readCount_fails (hfails k hlt)] at hpos
    exact absurd hpos (Nat.lt_irrefl 0)
  · exact he
  · have hnot := hbefore k' hlt
    rw [readCount_reports hr] at hnot
    exact absurd (count_pos hs hc k') hnot

theorem firstPollCounts_of_noFalsePositive (hs : RefServer o.server count)
    (h : NoFalsePositive count requests (startUpWait msTimeout o requests)) :
    FirstPollCounts o.server count requests msTimeout := by
  obtain ⟨k, hk, heq, hbefore, hat⟩ := startUpWait_comes o requests msTimeout
  rw [heq] at h
  rcases hs.poll requests 0 with hr | hf
  · exact .inl hr
  · by_cases hc : count (polls requests 1) = 0
    · exact .inr (.inl hc)
    · right
      right
      intro k' hk' hfails hr
      rw [readCount_fails hf] at h hbefore hat
      obtain rfl := ends_at_report hs hc hbefore hat hk' hfails hr
      rw [readCount_reports hr, if_pos (count_pos hs hc k)] at h
      exact (h.1 rfl).1

theorem increase_of_read (hs : RefServer server count)
    (h : FirstPollCounts server count requests msTimeout) (hk : k ≤ msTimeout.toNat / 100)
    (hbefore : ∀ j < k, ¬readCount (server (polls requests 1)) <
      readCount (server (polls requests (j + 2))))
    (hlt : readCount (server (polls requests 1)) < readCount (server (polls requests (k + 2)))) :
    count (polls requests 1) < count (polls requests (k + 2)) := by
  have hr := reports_of_read hs (k + 1) hlt
  have hread := readCount_reports hr
  rw [hread] at hlt
  rcases hs.poll requests 0 with hfirst | hf
  · rw [readCount_reports hfirst] at hlt
    exact hlt
  · rw [readCount_fails hf] at hlt hbefore
    by_cases hc : count (polls requests 1) = 0
    · rw [hc]
      exact hlt
    · rcases h with hfirst | hzero | hlater
      · have hpos := readCount_reports hfirst
        rw [readCount_fails hf] at hpos
        exact absurd hpos.symm hc
      · exact absurd hzero hc
      · exact hlater k hk (fun j hj => fails_of_read hs hc j (hbefore j hj)) hr

theorem noFalsePositive_of_firstPollCounts (hs : RefServer o.server count)
    (h : FirstPollCounts o.server count requests msTimeout) :
    NoFalsePositive count requests (startUpWait msTimeout o requests) := by
  obtain ⟨k, hk, heq, hbefore, _⟩ := startUpWait_comes o requests msTimeout
  rw [heq]
  by_cases hlt : readCount (o.server (polls requests 1)) <
      readCount (o.server (polls requests (k + 2)))
  · rw [if_pos hlt]
    have hread := readCount_reports (reports_of_read hs (k + 1) hlt)
    exact ⟨fun _ => ⟨increase_of_read hs h hk hbefore hlt, hread⟩, nofun⟩
  · rw [if_neg hlt]
    exact ⟨nofun, fun _ => rfl⟩

/-- There is no false positive exactly if the failure of the first poll is not taken for a count. -/
theorem no_false_positive_iff (o : Outside) (count : List (List QVariant) → UInt32)
    (requests : List (List QVariant)) (msTimeout : UInt32) (hs : RefServer o.server count) :
    NoFalsePositive count requests (startUpWait msTimeout o requests) ↔
      FirstPollCounts o.server count requests msTimeout :=
  ⟨firstPollCounts_of_noFalsePositive hs, noFalsePositive_of_firstPollCounts hs⟩

/-- A server that answers every poll but those that fail. -/
def counting (count : List (List QVariant) → UInt32) (fails : List (List QVariant) → Bool) :
    Outside :=
  let o := Outside.answering fun requests => .list [.bool true, .ofUInt (count requests)]
  { o with server := fun requests => if fails requests then .noResponse else o.server requests }

theorem counting_server (fails : List (List QVariant) → Bool)
    (hm : ∀ requests more, count requests ≤ count (requests ++ more)) :
    RefServer (counting count fails).server count where
  mono := hm
  poll requests n := by
    generalize polls requests (n + 1) = polled
    change (if fails polled then _ else _ : Outcome).Reports _ ∨
      (if fails polled then _ else _ : Outcome).Fails
    split
    · exact .inr (.inl rfl)
    · exact .inl ⟨rfl, _, rfl, rfl, rfl⟩

/-- The count is increased when the third request has been made. -/
def thirdCounts (requests : List (List QVariant)) : UInt32 := if requests.length < 3 then 1 else 2

theorem no_false_positive_iff_third :
    NoFalsePositive thirdCounts [] (startUpWait 300 (counting thirdCounts fun _ => false) []) := by
  have hm (requests more) : thirdCounts requests ≤ thirdCounts (requests ++ more) := by
    rw [thirdCounts, thirdCounts, List.length_append]
    split
    · split <;> decide
    · rw [if_neg (by omega)]
      exact UInt32.le_refl 2
  exact (no_false_positive_iff _ thirdCounts [] 300 (counting_server _ hm)).2
    (.inl ⟨rfl, _, rfl, rfl, rfl⟩)

/-- The first poll is lost. The count does not move. -/
theorem lost_first_poll_is_update : ∃ o : Outside, RefServer o.server (fun _ => 5) ∧
    (startUpWait 20000 o []).1 = (0, true, 5) ∧
    ¬NoFalsePositive (fun _ => 5) [] (startUpWait 20000 o []) := by
  refine ⟨counting (fun _ => 5) fun requests => requests.length = 1,
    counting_server _ fun _ _ => UInt32.le_refl 5, ?_, ?_⟩
  · rfl
  · intro h
    exact absurd (h.1 rfl).1 (by decide)

end AVS4000Client
end Avs4000
