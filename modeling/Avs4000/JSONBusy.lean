import Avs4000.JSONSteps

namespace Avs4000

def Event.request : Event → Request
  | .busy r | .write r => r

def HandPc.request : HandPc → Option Request
  | .idle => none
  | .tryLock r | .busy r => some r

/-- The request of a call that has yet to send it. -/
def CallPc.pending : CallPc → Option Request
  | .busy r | .locked r | .slotCleared r | .rspCleared r => some r
  | .idle | .waiting _ | .gotRsp _ | .unlocking _ _ => none

/-- The request is a `SET` that has the parameter `g.p` in its map. -/
def Request.Sets (r : Request) (g p : String) : Prop := ∃ map grp val,
  r.req = [.string "SET", .map map] ∧ (g, .map grp) ∈ map ∧ (p, val) ∈ grp

namespace JSONSystem
set_option autoImplicit true

/-- Call returned true for the request without sending it. -/
def Accepted (s : JSONSystem) (r : Request) : Prop := ⟨r, .busy⟩ ∈ s.returned

/-- The request is written, or on its way there. -/
inductive Kept (s : JSONSystem) (r : Request) : Prop
  | written (h : r ∈ s.written)
  | queued (e : Event) (h : e ∈ s.events) (he : e.request = r)
  | slot (h : s.client.busyReq = some r)
  | hand (h : s.hand.request = some r)
  | sending (h : (s.pc .client).pending = some r)

/-- The request was dropped for another accepted one, or by a call that took the mutex. -/
def Dropped (s : JSONSystem) (r : Request) : Prop :=
  ∃ d ∈ s.discarded, d.request = r ∧ ∀ r', d.cause = .overwritten r' → s.Accepted r'

structure BusyInv (s : JSONSystem) : Prop where
  events : ∀ r, .busy r ∈ s.events → s.Accepted r
  overwritten : ∀ d ∈ s.discarded, ∀ r, d.cause = .overwritten r → s.Accepted r
  accepted : ∀ r, s.Accepted r → s.Kept r ∨ ∃ d ∈ s.discarded, d.request = r
  unlocking : ∀ t r o, s.pc t = .unlocking r o → o ≠ .busy

theorem kept_busyREQ {s : JSONSystem} (h : s.Kept r) (r' : Request) :
    (s.busyREQ r').Kept r ∨ ∃ d ∈ (s.busyREQ r').discarded, d.request = r := by
  cases h with
  | written h => exact .inl (.written h)
  | queued e h he => exact .inl (.queued e h he)
  | slot h =>
    refine .inr ⟨⟨r, .overwritten r'⟩, List.mem_append_right _ ?_, rfl⟩
    rw [h]
    exact List.mem_singleton_self _
  | hand h => exact .inl (.hand h)
  | sending h => exact .inl (.sending h)

theorem kept_clearBusyReq {s : JSONSystem} (h : s.Kept r) (r' : Request) :
    (s.clearBusyReq r').Kept r ∨ ∃ d ∈ (s.clearBusyReq r').discarded, d.request = r := by
  cases h with
  | written h => exact .inl (.written h)
  | queued e h he => exact .inl (.queued e h he)
  | slot h =>
    refine .inr ⟨⟨r, .cleared r'⟩, List.mem_append_right _ ?_, rfl⟩
    rw [h]
    exact List.mem_singleton_self _
  | hand h => exact .inl (.hand h)
  | sending h => exact .inl (.sending h)

theorem Kept.moveHand {s u : JSONSystem} (h : s.Kept r) (hw : u.written = s.written)
    (he : u.events = s.events) (hb : u.client.busyReq = s.client.busyReq)
    (hp : (u.pc .client).pending = (s.pc .client).pending)
    (hh : s.hand.request = some r → u.Kept r) : u.Kept r := by
  cases h with
  | written h => exact .written (hw ▸ h)
  | queued e h hr => exact .queued e (he ▸ h) hr
  | slot h => exact .slot (hb.trans h)
  | hand h => exact hh h
  | sending h => exact .sending (hp.trans h)

theorem Kept.same {s u : JSONSystem} (h : s.Kept r) (hw : u.written = s.written)
    (he : u.events = s.events) (hb : u.client.busyReq = s.client.busyReq) (hh : u.hand = s.hand)
    (hp : (u.pc .client).pending = (s.pc .client).pending) : u.Kept r :=
  h.moveHand hw he hb hp fun h => .hand (hh ▸ h)

theorem Kept.move {s u : JSONSystem} {x y : CallPc} (h : s.Kept r) (hw : u.written = s.written)
    (he : u.events = s.events) (hb : u.client.busyReq = s.client.busyReq) (hh : u.hand = s.hand)
    (hp : u.pc = Function.update s.pc t x) (ht : s.pc t = y) (hx : x.pending = y.pending) :
    u.Kept r :=
  h.same hw he hb hh <| hp ▸ update_same CallPc.pending (hx.trans (congrArg _ ht).symm) _

/-- The call in a thread goes on to where it has nothing left to send. What it had is elsewhere by
then, if the thread is the client's. -/
theorem Kept.goto {s u : JSONSystem} {x : CallPc} (h : s.Kept r)
    (hw : ∀ r ∈ s.written, r ∈ u.written)
    (he : ∀ e ∈ s.events, e ∈ u.events) (hb : u.client.busyReq = s.client.busyReq)
    (hh : u.hand = s.hand) (hp : u.pc = Function.update s.pc t x)
    (hx : t = .client → (s.pc t).pending = some r → u.Kept r) : u.Kept r := by
  cases h with
  | written h => exact .written (hw r h)
  | queued e h hr => exact .queued e (he e h) hr
  | slot h => exact .slot (hb.trans h)
  | hand h => exact .hand (hh ▸ h)
  | sending h =>
    by_cases ht : t = .client
    · exact hx ht (ht ▸ h)
    · refine .sending ?_
      rwa [hp, Function.update_of_ne (Ne.symm ht)]

theorem Kept.dequeue {s : JSONSystem} (h : s.Kept r) (he : s.events = e :: es) :
    Kept { s with events := es } r ∨ e.request = r := by
  cases h with
  | written h => exact .inl (.written h)
  | queued e' h hr =>
    rw [he] at h
    rcases List.mem_cons.1 h with rfl | h
    · exact .inr hr
    · exact .inl (.queued e' h hr)
  | slot h => exact .inl (.slot h)
  | hand h => exact .inl (.hand h)
  | sending h => exact .inl (.sending h)

theorem kept_writeREQ {s : JSONSystem} (h : s.Kept r) (r' : Request) : (s.writeREQ r').Kept r := by
  cases h with
  | written h => exact .written (List.mem_append_left _ h)
  | queued e h he => exact .queued e h he
  | slot h => exact .slot h
  | hand h => exact .hand h
  | sending h => exact .sending h

/-- What a step finds written or on its way, it leaves so, or dropped. -/
theorem step_kept (h : s.Kept r) (hs : Step s a u) :
    u.Kept r ∨ ∃ d ∈ u.discarded, d.request = r := by
  cases hs with
  | callClient cmd arg hf =>
    refine .inl (h.moveHand rfl rfl rfl rfl fun h => ?_)
    rw [hf.hand] at h
    cases h
  | callBusy n cmd arg hp hm => exact .inl (h.goto (fun _ h => h) (fun _ h => h) rfl rfl rfl nofun)
  | callLock n cmd arg hp hm => exact .inl (h.goto (fun _ h => h) (fun _ h => h) rfl rfl rfl nofun)
  | emitBusy t r' ht hp =>
    cases t with
    | client =>
      rcases kept_busyREQ h r' with h | h
      · refine .inl (h.goto (fun _ h => h) (fun _ h => h) rfl rfl rfl fun _ h => ?_)
        change (s.pc .client).pending = _ at h
        rw [hp] at h
        cases h
        exact .slot rfl
      · exact .inr h
    | user n =>
      exact .inl (h.goto (fun _ h => h) (fun _ h => List.mem_append_left _ h) rfl rfl rfl nofun)
  | clearBusyReq t r' ht hp =>
    rcases kept_clearBusyReq h r' with h | h
    · exact .inl (h.move rfl rfl rfl rfl rfl hp rfl)
    · exact .inr h
  | clearRsp t r' ht hp =>
    exact .inl (h.move rfl rfl rfl rfl rfl hp rfl)
  | sendREQ t r' ht hp =>
    left
    cases t with
    | client =>
      refine h.goto (fun _ h => List.mem_append_left _ h) (fun _ h => h) rfl rfl rfl fun _ h => ?_
      rw [hp] at h
      cases h
      exact .written (List.mem_append_right _ (List.mem_singleton_self _))
    | user n => exact h.goto (fun _ h => h) (fun _ h => List.mem_append_left _ h) rfl rfl rfl nofun
  | gotRsp t r' ht hp a hr =>
    exact .inl (h.move rfl rfl rfl rfl rfl hp rfl)
  | noResponse t r' ht hp hr =>
    exact .inl (h.move rfl rfl rfl rfl rfl hp rfl)
  | replyBool t r' ht hp hb =>
    exact .inl (h.move rfl rfl rfl rfl rfl hp rfl)
  | reply t r' ht hp hb =>
    exact .inl (h.move rfl rfl rfl rfl rfl hp rfl)
  | unlock t r' o ht hp =>
    exact .inl (h.move rfl rfl rfl rfl rfl hp rfl)
  | handBusy r' hh hm =>
    refine .inl (h.moveHand rfl rfl rfl rfl fun h => ?_)
    rw [hh] at h
    exact .hand h
  | handLock r' hh hm hp =>
    left
    cases h with
    | written h => exact .written h
    | queued e h he => exact .queued e h he
    | slot h => exact .slot h
    | hand h =>
      rw [hh] at h
      refine .sending (.trans ?_ h)
      exact congrArg CallPc.pending (Function.update_self Thread.client (.locked r') s.pc)
    | sending h =>
      rw [hp] at h
      cases h
  | handEmit r' hh =>
    rcases kept_busyREQ h r' with h | h
    · refine .inl (h.moveHand rfl rfl rfl rfl fun h => ?_)
      change s.hand.request = _ at h
      rw [hh] at h
      exact .slot h
    · exact .inr h
  | deliverBusy r' es hf he =>
    rcases h.dequeue he with h | rfl
    · exact kept_busyREQ h r'
    · exact .inl (.slot rfl)
  | deliverWrite r' es hf he =>
    left
    rcases h.dequeue he with h | rfl
    · exact kept_writeREQ h r'
    · exact .written (List.mem_append_right _ (List.mem_singleton_self _))
  | timeoutNone hf hr => exact .inl (h.same rfl rfl rfl rfl rfl)
  | timeoutSome r' hf hr =>
    left
    cases h with
    | written h => exact .written h
    | queued e h he => exact .queued e h he
    | slot h => exact .hand (hr.symm.trans h)
    | hand h =>
      rw [hf.hand] at h
      cases h
    | sending h => exact .sending h
  | readyRead values l rest hf hd hv hn hl => exact .inl (h.same rfl rfl rfl rfl rfl)
  | readNull r' hr => exact .inl (h.same rfl rfl rfl rfl rfl)
  | readValue r' v hr => exact .inl (h.same rfl rfl rfl rfl rfl)

theorem step_logs (hs : Step s a u) : s.discarded <+: u.discarded ∧ s.returned <+: u.returned := by
  cases hs with
  | callClient | callBusy | callLock | clearRsp | gotRsp | noResponse | reply | handBusy | handLock
  | deliverWrite | timeoutNone | timeoutSome | readyRead | readNull | readValue =>
    exact ⟨List.prefix_rfl, List.prefix_rfl⟩
  | emitBusy t r ht hp =>
    cases t with
    | client => exact ⟨List.prefix_append .., List.prefix_append ..⟩
    | user n => exact ⟨List.prefix_rfl, List.prefix_append ..⟩
  | clearBusyReq | deliverBusy => exact ⟨List.prefix_append .., List.prefix_rfl⟩
  | sendREQ t r ht hp =>
    cases t with
    | client | user n => exact ⟨List.prefix_rfl, List.prefix_rfl⟩
  | replyBool | unlock => exact ⟨List.prefix_rfl, List.prefix_append ..⟩
  | handEmit => exact ⟨List.prefix_append .., List.prefix_append ..⟩

theorem Accepted.mono (hs : Step s a u) (h : s.Accepted r) : u.Accepted r :=
  (step_logs hs).2.subset h

theorem accepted_ret {s : JSONSystem} (h : (s.ret r o).Accepted r') :
    s.Accepted r' ∨ r' = r ∧ o = .busy := by
  rcases List.mem_append.1 h with h | h
  · exact .inl h
  · cases List.mem_singleton.1 h
    exact .inr ⟨rfl, rfl⟩

theorem step_accepted (hu : ∀ t r o, s.pc t = .unlocking r o → o ≠ .busy) (hs : Step s a u)
    (h : u.Accepted r) : s.Accepted r ∨ u.Kept r := by
  cases hs with
  | callClient | callBusy | callLock | clearBusyReq | clearRsp | gotRsp | noResponse | reply
  | handBusy | handLock | deliverBusy | deliverWrite | timeoutNone | timeoutSome | readyRead
  | readNull | readValue => exact .inl h
  | emitBusy t r' ht hp =>
    rcases accepted_ret (s := s.emitBusy t r') h with h | ⟨rfl, _⟩
    · left
      rwa [Accepted, emitBusy_returned] at h
    · right
      cases t with
      | client => exact .slot rfl
      | user n => exact .queued (.busy r) (List.mem_append_right _ (List.mem_singleton_self _)) rfl
  | sendREQ t r' ht hp =>
    left
    change ⟨r, .busy⟩ ∈ (s.sendREQ t r').returned at h
    rwa [sendREQ_returned] at h
  | replyBool t r' ht hp hb =>
    rcases accepted_ret (s := s) h with h | ⟨_, ho⟩
    · exact .inl h
    · cases ho
  | unlock t r' o ht hp =>
    rcases accepted_ret (s := s.setMutex false) h with h | ⟨_, ho⟩
    · exact .inl h
    · exact absurd ho (hu t r' o hp)
  | handEmit r' hh =>
    rcases accepted_ret (s := s.busyREQ r') h with h | ⟨rfl, _⟩
    · exact .inl h
    · exact .inr (.slot rfl)

theorem step_events (hs : Step s a u) (h : .busy r ∈ u.events) :
    .busy r ∈ s.events ∨ u.Accepted r := by
  cases hs with
  | callClient | callBusy | callLock | clearBusyReq | clearRsp | gotRsp | noResponse | replyBool
  | reply | unlock | handBusy | handLock | handEmit | timeoutNone | timeoutSome | readyRead
  | readNull | readValue => exact .inl h
  | emitBusy t r' ht hp =>
    cases t with
    | client => exact .inl h
    | user n =>
      rcases List.mem_append.1 h with h | h
      · exact .inl h
      · cases List.mem_singleton.1 h
        exact .inr (List.mem_append_right _ (List.mem_singleton_self _))
  | sendREQ t r' ht hp =>
    cases t with
    | client => exact .inl h
    | user n =>
      rcases List.mem_append.1 h with h | h
      · exact .inl h
      · cases List.mem_singleton.1 h
  | deliverBusy r' es hf he | deliverWrite r' es hf he =>
    left
    rw [he]
    exact List.mem_cons_of_mem _ h

theorem discarded_busyREQ {s : JSONSystem} (h : d ∈ (s.busyREQ r).discarded)
    (hc : d.cause = .overwritten r') : d ∈ s.discarded ∨ r' = r := by
  rcases List.mem_append.1 h with h | h
  · exact .inl h
  · obtain ⟨_, _, rfl⟩ := List.mem_map.1 h
    cases hc
    exact .inr rfl

theorem step_overwritten (hi : ∀ r, .busy r ∈ s.events → s.Accepted r) (hs : Step s a u)
    (h : d ∈ u.discarded) (hc : d.cause = .overwritten r) : d ∈ s.discarded ∨ u.Accepted r := by
  cases hs with
  | callClient | callBusy | callLock | clearRsp | gotRsp | noResponse | replyBool | reply | unlock
  | handBusy | handLock | deliverWrite | timeoutNone | timeoutSome | readyRead | readNull
  | readValue => exact .inl h
  | emitBusy t r' ht hp =>
    cases t with
    | client =>
      rcases discarded_busyREQ h hc with h | rfl
      · exact .inl h
      · exact .inr (List.mem_append_right _ (List.mem_singleton_self _))
    | user n => exact .inl h
  | clearBusyReq t r' ht hp =>
    rcases List.mem_append.1 h with h | h
    · exact .inl h
    · obtain ⟨_, _, rfl⟩ := List.mem_map.1 h
      cases hc
  | sendREQ t r' ht hp =>
    cases t with
    | client | user n => exact .inl h
  | handEmit r' hh =>
    rcases discarded_busyREQ h hc with h | rfl
    · exact .inl h
    · exact .inr (List.mem_append_right _ (List.mem_singleton_self _))
  | deliverBusy r' es hf he =>
    rcases discarded_busyREQ h hc with h | rfl
    · exact .inl h
    · exact .inr (hi r (he ▸ List.mem_cons_self))

theorem step_busyInv (h : BusyInv s) (hs : Step s a u) : BusyInv u where
  events r hr := (step_events hs hr).elim (fun hr => (h.events r hr).mono hs) id
  overwritten d hd r hc :=
    (step_overwritten h.events hs hd hc).elim (fun hd => (h.overwritten d hd r hc).mono hs) id
  accepted r hr := by
    rcases step_accepted h.unlocking hs hr with hr | hr
    · rcases h.accepted r hr with hk | ⟨d, hd, he⟩
      · exact step_kept hk hs
      · exact .inr ⟨d, (step_logs hs).1.subset hd, he⟩
    · exact .inl hr
  unlocking := step_unlocking nofun (fun _ _ => nofun) h.unlocking hs

theorem init_busyInv : BusyInv init := ⟨nofun, nofun, nofun, nofun⟩

/-- A request that was accepted is written or on its way, or was dropped: another accepted one was
put over it in the slot, or a call that took the mutex cleared the slot. -/
theorem accepted_kept_or_dropped (hr : Sys.run step init acts = some s) (ha : s.Accepted r) :
    s.Kept r ∨ s.Dropped r := by
  have h : BusyInv s :=
    Sys.run_invariant (fun _ _ _ h hs => step_busyInv h (step_cases hs)) init_busyInv hr
  rcases h.accepted r ha with hk | ⟨d, hd, he⟩
  · exact .inl hk
  · exact .inr ⟨d, hd, he, h.overwritten d hd⟩

/-- Another `SET` of a parameter the request sets was made later. -/
def Superseded (s : JSONSystem) (r : Request) : Prop :=
  ∃ ret ∈ s.returned, r.id < ret.request.id ∧ ∃ g p, r.Sets g p ∧ ret.request.Sets g p

def rxGain (val : QVariant) : QVariant := .map [("rx", .map [("gain", val)])]

def setGain (id : Nat) (t : Thread) : Request :=
  ⟨id, t, callReq "SET" (rxGain (.number true 5 "5")), _, _, rfl⟩

/-- A `SET` is made while a `GET` has the mutex, and a second `GET` comes after the first. -/
def setBetweenGets : List Act :=
  [.call (.user 0) "GET" .null, .callStep (.user 0), .callStep (.user 0), .callStep (.user 0),
    .call (.user 1) "SET" (rxGain (.number true 5 "5")),
    .callStep (.user 1), .deliver, .deliver, .callStep (.user 0), .callStep (.user 0),
    .call (.user 0) "GET" .null]

theorem accepted_kept_set : ∃ s, Sys.run step init setBetweenGets = some s ∧
    (s.Kept (setGain 1 (.user 1)) ∨ s.Dropped (setGain 1 (.user 1))) := by
  obtain ⟨s, hs⟩ : ∃ s, Sys.run step init setBetweenGets = some s := ⟨_, rfl⟩
  refine ⟨s, hs, accepted_kept_or_dropped hs ?_⟩
  cases hs
  exact .head _

/-- A `GET` makes an accepted `SET` disappear. -/
theorem get_drops_set : ∃ s,
    Sys.run step init (setBetweenGets ++ [.callStep (.user 0)]) = some s ∧
      s.Accepted (setGain 1 (.user 1)) ∧ ¬s.Kept (setGain 1 (.user 1)) ∧
      ¬s.Superseded (setGain 1 (.user 1)) := by
  obtain ⟨s, hs, hw, he, hb, hh, hp, hret, ha⟩ : ∃ s,
      Sys.run step init (setBetweenGets ++ [.callStep (.user 0)]) = some s ∧
        s.written.map Request.id = [0] ∧ s.events = [] ∧ s.client.busyReq = none ∧
        s.hand = .idle ∧ s.pc .client = .idle ∧
        s.returned.map (fun ret => ret.request.id) = [1, 0] ∧ s.Accepted (setGain 1 (.user 1)) := by
    refine ⟨_, rfl, rfl, rfl, rfl, rfl, rfl, rfl, ?_⟩
    exact .head _
  refine ⟨s, hs, ha, fun hk => ?_, fun ⟨ret, hmem, hlt, _⟩ => ?_⟩
  · cases hk with
    | written h =>
      have hid := List.mem_map_of_mem (f := Request.id) h
      rw [hw] at hid
      exact Nat.one_ne_zero (List.mem_singleton.1 hid)
    | queued e h _ =>
      rw [he] at h
      cases h
    | slot h => exact nomatch hb.symm.trans h
    | hand h =>
      rw [hh] at h
      cases h
    | sending h =>
      rw [hp] at h
      cases h
  · have hid := List.mem_map_of_mem (f := fun ret : Return => ret.request.id) hmem
    change 1 < ret.request.id at hlt
    rw [hret] at hid
    simp only [List.mem_cons, List.not_mem_nil, or_false] at hid
    omega

end JSONSystem
end Avs4000
