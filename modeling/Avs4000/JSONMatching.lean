import Avs4000.JSONLock

namespace Avs4000

def Event.toWrite : Event → Option Request
  | .busy _ => none
  | .write r => some r

namespace JSONSystem
set_option autoImplicit true

/-- The requests sent whose answers are not read yet, in the order they will be. -/
def outstanding (s : JSONSystem) : List Request :=
  (s.reading.toList ++ s.lines).map Line.request ++
    (s.written.drop s.answered ++ s.events.filterMap Event.toWrite)

/-- When a step cannot mix up the responses. A call that has the mutex clears `rsp` only once the
answers to all requests sent before are read. -/
def KeepsPace (s : JSONSystem) : Act → Prop
  | .callStep t => ∀ r, s.pc t = .slotCleared r → s.outstanding = []
  | _ => True

/-- What a call inside can rely on. -/
def Awaits (s : JSONSystem) : CallPc → Prop
  | .idle | .busy _ | .locked _ | .slotCleared _ => True
  | .rspCleared _ => s.outstanding = [] ∧ s.client.rsp = none
  | .waiting r => s.outstanding = [r] ∧ s.client.rsp = none ∨
      s.outstanding = [] ∧ ∀ a, s.client.rsp = some a → a.request = r
  | .gotRsp r => s.outstanding = [] ∧ ∃ a, s.client.rsp = some a ∧ a.request = r
  | .unlocking r o => ∀ rsp, o = .reply rsp → ∃ a, rsp = some a ∧ a.request = r

/-- The responses the calls returned by were those to their own requests. -/
def Matched (rets : List Return) : Prop := ∀ ret ∈ rets, ∀ rsp, ret.outcome = .reply rsp →
  ∃ a, rsp = some a ∧ a.request = ret.request

structure MatchInv (s : JSONSystem) : Prop where
  lock : LockInv s
  answered : s.answered ≤ s.written.length
  awaits : ∀ t, Awaits s (s.pc t)
  returned : Matched s.returned

theorem Awaits.same {s u : JSONSystem} {x : CallPc} (h : Awaits s x)
    (ho : u.outstanding = s.outstanding) (hr : u.client.rsp = s.client.rsp) : Awaits u x := by
  cases x with
  | idle | busy | locked | slotCleared => trivial
  | rspCleared r => exact ⟨ho.trans h.1, hr.trans h.2⟩
  | waiting r =>
    rw [Awaits, ho, hr]
    exact h
  | gotRsp r =>
    rw [Awaits, ho, hr]
    exact h
  | unlocking r o => exact h

theorem Awaits.of_outside {s : JSONSystem} {x : CallPc} (h : ¬x.Inside) : Awaits s x := by
  cases x with
  | idle | busy => trivial
  | locked | slotCleared | rspCleared | waiting | gotRsp | unlocking => exact absurd trivial h

theorem Awaits.clear {s u : JSONSystem} {x : CallPc} (h : Awaits s x)
    (ho : u.outstanding = s.outstanding) (hne : s.outstanding ≠ [])
    (hr : u.client.rsp = none) : Awaits u x := by
  cases x with
  | idle | busy | locked | slotCleared => trivial
  | rspCleared r => exact absurd h.1 hne
  | waiting r => exact .inl ⟨ho.trans (h.resolve_right fun hw => hne hw.1).1, hr⟩
  | gotRsp r => exact absurd h.1 hne
  | unlocking r o => exact h

theorem Awaits.read {s u : JSONSystem} {x : CallPc} (h : Awaits s x)
    (ho : s.outstanding = r :: u.outstanding)
    (hr : u.client.rsp = s.client.rsp ∨ ∃ v, u.client.rsp = some ⟨r, v⟩) : Awaits u x := by
  have hne : s.outstanding ≠ [] := by
    rw [ho]
    exact List.cons_ne_nil _ _
  cases x with
  | idle | busy | locked | slotCleared => trivial
  | rspCleared r' => exact absurd h.1 hne
  | waiting r' =>
    obtain ⟨h₁, hn⟩ := h.resolve_right fun hw => hne hw.1
    rw [ho, List.cons.injEq] at h₁
    obtain ⟨rfl, h₁⟩ := h₁
    refine .inr ⟨h₁, fun a ha => ?_⟩
    rcases hr with hr | ⟨v, hr⟩
    · exact absurd (ha.symm.trans (hr.trans hn)) nofun
    · rw [← Option.some.inj (hr.symm.trans ha)]
  | gotRsp r' => exact absurd h.1 hne
  | unlocking r' o => exact h

theorem awaits_update {u : JSONSystem} {pc : Thread → CallPc} (hx : Awaits u x)
    (h : ∀ v, v ≠ t → Awaits u (pc v)) (v : Thread) : Awaits u (Function.update pc t x v) :=
  (Function.forall_update_iff pc fun _ => Awaits u).2 ⟨hx, h⟩ v

/-- The call that is inside goes on: nothing is asked of the others. -/
theorem awaits_inside {s u : JSONSystem} (hl : Lock s) (ht : (s.pc t).Inside)
    (hp : u.pc = Function.update s.pc t x) (hx : Awaits u x) (v : Thread) : Awaits u (u.pc v) := by
  rw [hp]
  exact awaits_update hx (fun v hv => .of_outside fun hin => hv (hl.inside_unique hin ht)) v

theorem outstanding_emitBusy (s : JSONSystem) (t : Thread) (r : Request) :
    (s.emitBusy t r).outstanding = s.outstanding ∧ (s.emitBusy t r).client.rsp = s.client.rsp ∧
      (s.emitBusy t r).answered = s.answered ∧ (s.emitBusy t r).written = s.written := by
  rw [emitBusy]
  split
  · exact ⟨rfl, rfl, rfl, rfl⟩
  · refine ⟨?_, rfl, rfl, rfl⟩
    rw [outstanding, List.filterMap_append]
    exact congrArg (_ ++ ·) (congrArg (_ ++ ·) (List.append_nil _))

theorem outstanding_sendREQ {s : JSONSystem} (h : s.outstanding = [])
    (ha : s.answered ≤ s.written.length) (t : Thread) (r : Request) :
    (s.sendREQ t r).outstanding = [r] := by
  have hparts := h
  rw [outstanding, List.append_eq_nil_iff, List.append_eq_nil_iff] at hparts
  obtain ⟨h₁, h₂, h₃⟩ := hparts
  rw [sendREQ]
  split
  · change (s.reading.toList ++ s.lines).map Line.request ++
      ((s.written ++ [r]).drop s.answered ++ s.events.filterMap Event.toWrite) = [r]
    rw [h₁, List.drop_append_of_le_length ha, h₂]
    exact congrArg (r :: ·) h₃
  · change (s.reading.toList ++ s.lines).map Line.request ++
      (s.written.drop s.answered ++ (s.events ++ [Event.write r]).filterMap Event.toWrite) = [r]
    rw [h₁, h₂, List.filterMap_append, h₃]
    rfl

theorem map_zipWith_request (rs : List Request) (vs : List (Option QVariant)) :
    (List.zipWith Line.mk rs vs).map Line.request = rs.take vs.length := by
  induction rs generalizing vs with
  | nil => cases vs <;> rfl
  | cons r rs ih =>
    cases vs with
    | nil => rfl
    | cons v vs => exact congrArg (r :: ·) (ih vs)

theorem outstanding_readyRead {s : JSONSystem} (hr : s.reading = none)
    (hl : s.lines ++ List.zipWith Line.mk (s.written.drop s.answered) values = l :: rest) :
    outstanding { s.clearRsp with
      lines := rest, reading := some l, answered := s.answered + values.length } =
        s.outstanding := by
  change (l :: rest).map Line.request ++ (s.written.drop (s.answered + values.length) ++ _) = _
  rw [← hl, List.map_append, map_zipWith_request, outstanding, hr, List.append_assoc,
    ← List.append_assoc (List.take ..), ← List.drop_drop, List.take_append_drop]
  rfl

theorem Matched.ret (h : Matched s.returned)
    (ho : ∀ rsp, o = .reply rsp → ∃ a, rsp = some a ∧ a.request = r) :
    Matched (ret s r o).returned := by
  intro x hx
  rcases List.mem_append.1 hx with hx | hx
  · exact h x hx
  · rw [List.mem_singleton.1 hx]
    exact ho

theorem sendREQ_answered {s : JSONSystem} (hr : s.client.rsp = none)
    (ha : s.answered ≤ s.written.length) (t : Thread) (r : Request) :
    (s.sendREQ t r).client.rsp = none ∧
      (s.sendREQ t r).answered ≤ (s.sendREQ t r).written.length := by
  rw [sendREQ]
  split
  · exact ⟨rfl, Nat.le_trans ha (List.length_append ▸ Nat.le_add_right ..)⟩
  · exact ⟨hr, ha⟩

theorem outstanding_deliverWrite {s : JSONSystem} (ha : s.answered ≤ s.written.length)
    (he : s.events = .write r :: es) :
    outstanding ({ s with events := es }.writeREQ r) = s.outstanding := by
  rw [outstanding, outstanding, he]
  change _ ++ ((s.written ++ [r]).drop s.answered ++ _) = _
  rw [List.drop_append_of_le_length ha, List.append_assoc]
  rfl

theorem MatchInv.awaits_at {x : CallPc} (h : MatchInv s) (hp : s.pc t = x) : Awaits s x :=
  hp ▸ h.awaits t

theorem step_match (h : MatchInv s) (hk : KeepsPace s a) (hs : Step s a u) : MatchInv u := by
  have hlock := step_lockInv h.lock hs
  have hin {t : Thread} {x : CallPc} (hp : s.pc t = x) (hx : x.Inside) : (s.pc t).Inside := hp ▸ hx
  have hall {x : CallPc} {v : JSONSystem} {t : Thread} (ho : v.outstanding = s.outstanding)
      (hr : v.client.rsp = s.client.rsp) (hp : v.pc = Function.update s.pc t x)
      (hx : Awaits v x) (w : Thread) : Awaits v (v.pc w) := by
    rw [hp]
    exact awaits_update hx (fun w _ => (h.awaits w).same ho hr) w
  cases hs with
  | callClient | handBusy | timeoutNone | timeoutSome =>
    exact ⟨hlock, h.answered, fun t => (h.awaits t).same rfl rfl, h.returned⟩
  | handEmit r hh =>
    exact ⟨hlock, h.answered, fun t => (h.awaits t).same rfl rfl, Matched.ret h.returned nofun⟩
  | deliverBusy r es hf he =>
    have ho : outstanding ({ s with events := es }.busyREQ r) = s.outstanding := by
      rw [outstanding, outstanding, he]
      rfl
    exact ⟨hlock, h.answered, fun t => (h.awaits t).same ho rfl, h.returned⟩
  | callBusy n cmd arg hp hm => exact ⟨hlock, h.answered, hall rfl rfl rfl trivial, h.returned⟩
  | callLock n cmd arg hp hm => exact ⟨hlock, h.answered, hall rfl rfl rfl trivial, h.returned⟩
  | handLock r hh hm hp => exact ⟨hlock, h.answered, hall rfl rfl rfl trivial, h.returned⟩
  | emitBusy t r ht hp =>
    obtain ⟨ho, hr, ha, hw⟩ := outstanding_emitBusy s t r
    have hpc := congrArg (Function.update · t .idle) (emitBusy_pc s t r)
    have hret : Matched (s.emitBusy t r).returned := (emitBusy_returned s t r).symm ▸ h.returned
    refine ⟨hlock, ?_, hall ho hr hpc trivial, hret.ret nofun⟩
    change (s.emitBusy t r).answered ≤ (s.emitBusy t r).written.length
    rw [ha, hw]
    exact h.answered
  | clearBusyReq t r ht hp => exact ⟨hlock, h.answered, hall rfl rfl rfl trivial, h.returned⟩
  | clearRsp t r ht hp =>
    exact ⟨hlock, h.answered, awaits_inside h.lock.lock (hin hp trivial) rfl ⟨hk r hp, rfl⟩,
      h.returned⟩
  | sendREQ t r ht hp =>
    obtain ⟨ho, hr⟩ := h.awaits_at hp
    have ho' := outstanding_sendREQ ho h.answered t r
    obtain ⟨hr', ha'⟩ := sendREQ_answered hr h.answered t r
    have hpc := congrArg (Function.update · t (.waiting r)) (sendREQ_pc s t r)
    exact ⟨hlock, ha', awaits_inside h.lock.lock (hin hp trivial) hpc (.inl ⟨ho', hr'⟩),
      (sendREQ_returned s t r).symm ▸ h.returned⟩
  | gotRsp t r ht hp a hr =>
    obtain ⟨ho, hrsp⟩ :=
      (h.awaits_at hp).resolve_left fun hw => absurd (hr.symm.trans hw.2) nofun
    exact ⟨hlock, h.answered, hall rfl rfl rfl ⟨ho, a, hr, hrsp a hr⟩, h.returned⟩
  | noResponse t r ht hp hr => exact ⟨hlock, h.answered, hall rfl rfl rfl nofun, h.returned⟩
  | replyBool t r ht hp hb =>
    refine ⟨hlock, h.answered, hall rfl rfl rfl trivial, Matched.ret h.returned fun rsp he => ?_⟩
    cases he
    exact (h.awaits_at hp).2
  | reply t r ht hp hb =>
    refine ⟨hlock, h.answered, hall rfl rfl rfl fun rsp he => ?_, h.returned⟩
    cases he
    exact (h.awaits_at hp).2
  | unlock t r o ht hp =>
    exact ⟨hlock, h.answered, hall rfl rfl rfl trivial, Matched.ret h.returned (h.awaits_at hp)⟩
  | deliverWrite r es hf he =>
    have ho := outstanding_deliverWrite h.answered he
    have hne : s.outstanding ≠ [] := by
      rw [outstanding, he]
      exact List.append_ne_nil_of_right_ne_nil _ (List.append_ne_nil_of_right_ne_nil _ nofun)
    have ha : s.answered ≤ (s.written ++ [r]).length :=
      Nat.le_trans h.answered (List.length_append ▸ Nat.le_add_right ..)
    exact ⟨hlock, ha, fun t => (h.awaits t).clear ho hne rfl, h.returned⟩
  | readyRead values l rest hf hd hv hn hl =>
    have ho := outstanding_readyRead hf.reading hl
    have hne : s.outstanding ≠ [] := by
      rw [← ho]
      exact nofun
    exact ⟨hlock, hn, fun t => (h.awaits t).clear ho hne rfl, h.returned⟩
  | readNull r hr =>
    have ho : s.outstanding = r :: outstanding { s with reading := none } := by
      rw [outstanding, hr]
      rfl
    exact ⟨hlock, h.answered, fun t => (h.awaits t).read ho (.inl rfl), h.returned⟩
  | readValue r v hr =>
    have ho : s.outstanding = r :: outstanding { s with
        reading := none, client := { s.client with rsp := some ⟨r, v⟩ } } := by
      rw [outstanding, hr]
      rfl
    exact ⟨hlock, h.answered, fun t => (h.awaits t).read ho (.inr ⟨v, rfl⟩), h.returned⟩

theorem init_match : MatchInv init := ⟨init_lockInv, Nat.le_refl _, fun _ => trivial, nofun⟩

/-- Every response a call returns by is the answer to its own request, as long as no call clears
`rsp` while an earlier answer is still to be read. -/
theorem responses_match (hk : Sys.Along step KeepsPace init acts)
    (hr : Sys.run step init acts = some s) : Matched s.returned := by
  have hm : MatchInv s :=
    Sys.run_induction (fun _ _ _ h hk hs => step_match h hk (step_cases hs)) init_match hk hr
  exact hm.returned

theorem responses_match_answered : ∃ s,
    Sys.run step init (answeredCall (.list [.bool true]) ++ [.callStep (.user 0)]) = some s ∧
      s.returned.length = 1 ∧ Matched s.returned := by
  obtain ⟨s, hs⟩ : ∃ s, Sys.run step init
      (answeredCall (.list [.bool true]) ++ [.callStep (.user 0)]) = some s := ⟨_, rfl⟩
  refine ⟨s, hs, ?_, responses_match ?_ hs⟩
  · cases hs
    rfl
  · exact .cons trivial rfl <| .cons (fun _ _ => rfl) rfl <| .cons (fun _ _ => rfl) rfl <|
      .cons (fun _ _ => rfl) rfl <| .cons trivial rfl <| .cons trivial rfl <| .cons trivial rfl <|
      .cons (fun _ _ => rfl) rfl <| .cons (fun _ _ => rfl) rfl <| .cons (fun _ _ => rfl) rfl trivial

/-- A first call times out, and the second one gets the answer to the request of the first. -/
def lateAnswer (v : QVariant) : List Act :=
  [.call (.user 0) "GET" .null, .callStep (.user 0), .callStep (.user 0), .callStep (.user 0),
    .deliver, .callStep (.user 0), .callStep (.user 0)] ++
  [.call (.user 0) "GET" .null, .callStep (.user 0), .callStep (.user 0), .callStep (.user 0),
    .deliver, .readyRead [some v], .readDone, .callStep (.user 0), .callStep (.user 0),
    .callStep (.user 0)]

theorem late_answer_taken : ∃ s, Sys.run step init (lateAnswer (.list [.bool true])) = some s ∧
    ¬Matched s.returned := by
  refine ⟨_, rfl, fun h => ?_⟩
  obtain ⟨a, ha, hr⟩ := h _ (.tail _ (.head _)) _ rfl
  cases ha
  exact Nat.zero_ne_one (congrArg Request.id hr)

end JSONSystem
end Avs4000
