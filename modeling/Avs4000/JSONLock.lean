import Avs4000.JSONSteps

namespace Avs4000

/-- The points of `Call` where it has the mutex. -/
def CallPc.Inside : CallPc → Prop
  | .idle | .busy _ => False
  | .locked _ | .slotCleared _ | .rspCleared _ | .waiting _ | .gotRsp _ | .unlocking _ _ => True

/-- The points of `Call` where it has the mutex and has not sent the request. -/
def CallPc.Ahead (r : Request) : CallPc → Prop
  | .locked q | .slotCleared q | .rspCleared q => q = r
  | _ => False

namespace JSONSystem
set_option autoImplicit true

/-- Who has the mutex: nobody, or the one call inside. -/
inductive Lock (s : JSONSystem) : Prop
  | free (hm : s.client.mutex = false) (hi : ∀ t, ¬(s.pc t).Inside)
  | held (t : Thread) (hm : s.client.mutex = true) (hi : ∀ u, (s.pc u).Inside ↔ u = t)

/-- Only documents are read from the socket. -/
structure Documents (s : JSONSystem) : Prop where
  rsp : isBool s.client.rsp = false
  lines : ∀ l ∈ s.lines, parsed l.value = true
  reading : ∀ l, s.reading = some l → parsed l.value = true

structure LockInv (s : JSONSystem) : Prop where
  lock : Lock s
  documents : Documents s

theorem Lock.inside_unique (h : Lock s) (ht : (s.pc t).Inside) (hu : (s.pc u).Inside) : t = u := by
  cases h with
  | free hm hi => exact absurd ht (hi t)
  | held v hm hi => exact ((hi t).1 ht).trans ((hi u).1 hu).symm

theorem Lock.of_inside (h : Lock s) (ht : (s.pc t).Inside) : ∀ u, (s.pc u).Inside ↔ u = t := by
  cases h with
  | free hm hi => exact absurd ht (hi t)
  | held v hm hi =>
    obtain rfl := (hi t).1 ht
    exact hi

theorem Lock.of_free (h : Lock s) (hm : s.client.mutex = false) (t : Thread) :
    ¬(s.pc t).Inside := by
  cases h with
  | free _ hi => exact hi t
  | held v hm' hi => exact absurd (hm.symm.trans hm') nofun

theorem Lock.mutex_iff (h : Lock s) : s.client.mutex = true ↔ ∃ t, (s.pc t).Inside := by
  cases h with
  | free hm hi =>
    exact ⟨fun ht => absurd (hm.symm.trans ht) nofun, fun ⟨t, ht⟩ => absurd ht (hi t)⟩
  | held t hm hi => exact ⟨fun _ => ⟨t, (hi t).2 rfl⟩, fun _ => hm⟩

theorem Lock.same {s u : JSONSystem} (h : Lock s) (hm : u.client.mutex = s.client.mutex)
    (hi : ∀ t, (u.pc t).Inside ↔ (s.pc t).Inside) : Lock u := by
  cases h with
  | free hm' hi' => exact .free (hm.trans hm') fun t ht => hi' t ((hi t).1 ht)
  | held t hm' hi' => exact .held t (hm.trans hm') fun v => (hi v).trans (hi' v)

theorem Lock.goto {s u : JSONSystem} {x y : CallPc} (h : Lock s) (hy : s.pc t = y)
    (hm : u.client.mutex = s.client.mutex) (hp : u.pc = Function.update s.pc t x)
    (hi : x.Inside = y.Inside) : Lock u := by
  subst hy
  refine h.same hm ?_
  intro v
  rw [hp, update_same CallPc.Inside hi]

theorem Lock.take {s u : JSONSystem} (h : Lock s) (hf : s.client.mutex = false)
    (hm : u.client.mutex = true) (hp : u.pc = Function.update s.pc t (.locked r)) : Lock u := by
  have hi := h.of_free hf
  refine .held t hm ?_
  intro v
  rw [hp]
  by_cases hv : v = t
  · subst hv
    rw [Function.update_self]
    exact ⟨fun _ => rfl, fun _ => trivial⟩
  · rw [Function.update_of_ne hv]
    exact ⟨fun hin => absurd hin (hi v), fun he => absurd he hv⟩

theorem Lock.leave {s u : JSONSystem} (h : Lock s) (ht : (s.pc t).Inside)
    (hp : u.pc = Function.update s.pc t .idle) (v : Thread) : ¬(u.pc v).Inside := by
  have hi := h.of_inside ht
  rw [hp]
  by_cases hv : v = t
  · subst hv
    rw [Function.update_self]
    exact id
  · rw [Function.update_of_ne hv]
    exact fun hin => hv ((hi v).1 hin)

theorem step_lock (h : LockInv s) (hs : Step s a u) : Lock u := by
  have hl := h.lock
  cases hs with
  | callClient | handBusy | handEmit | deliverBusy | deliverWrite | timeoutNone | timeoutSome
  | readyRead | readNull | readValue => exact hl.same rfl fun _ => .rfl
  | callBusy n cmd arg hp hm => exact hl.goto hp rfl rfl rfl
  | callLock n cmd arg hp hm => exact hl.take hm rfl rfl
  | emitBusy t r ht hp =>
    have hu := congrArg (Function.update · t .idle) (emitBusy_pc s t r)
    exact hl.goto hp (emitBusy_mutex ..) hu rfl
  | clearBusyReq t r ht hp => exact hl.goto hp rfl rfl rfl
  | clearRsp t r ht hp => exact hl.goto hp rfl rfl rfl
  | sendREQ t r ht hp =>
    have hu := congrArg (Function.update · t (.waiting r)) (sendREQ_pc s t r)
    exact hl.goto hp (sendREQ_mutex ..) hu rfl
  | gotRsp t r ht hp a hr => exact hl.goto hp rfl rfl rfl
  | noResponse t r ht hp hr => exact hl.goto hp rfl rfl rfl
  | reply t r ht hp hb => exact hl.goto hp rfl rfl rfl
  -- the one return that keeps the mutex, and no document leads there
  | replyBool t r ht hp hb => exact absurd hb (Bool.eq_false_iff.1 h.documents.rsp)
  | unlock t r o ht hp =>
    have hin : (s.pc t).Inside := by
      rw [hp]
      trivial
    exact .free rfl (hl.leave hin rfl)
  | handLock r hh hm hp => exact hl.take hm rfl rfl

theorem value_mem {rs : List Request} {vs : List (Option QVariant)} {l : Line}
    (h : l ∈ List.zipWith Line.mk rs vs) : l.value ∈ vs := by
  rw [← List.map_uncurry_zip_eq_zipWith] at h
  obtain ⟨⟨r, v⟩, hz, rfl⟩ := List.mem_map.1 h
  exact (List.of_mem_zip hz).2

theorem isBool_of_parsed {v : QVariant} (h : parsed (some v) = true) : v.isBool = false := by
  cases v with
  | list | map => rfl
  | invalid | null | bool | number | string => cases h

theorem step_documents {s u : JSONSystem} (h : s.Documents) (hs : Step s a u) : u.Documents := by
  cases hs with
  | callClient | callBusy | callLock | clearBusyReq | gotRsp | noResponse | replyBool | reply
  | unlock | handBusy | handLock | handEmit | deliverBusy | timeoutNone | timeoutSome =>
    exact ⟨h.rsp, h.lines, h.reading⟩
  | clearRsp | deliverWrite => exact ⟨rfl, h.lines, h.reading⟩
  | emitBusy t r ht hp =>
    cases t with
    | client | user n => exact ⟨h.rsp, h.lines, h.reading⟩
  | sendREQ t r ht hp =>
    cases t with
    | client => exact ⟨rfl, h.lines, h.reading⟩
    | user n => exact ⟨h.rsp, h.lines, h.reading⟩
  | readyRead values l rest hf hd hv hn hl =>
    have hall : ∀ k ∈ l :: rest, parsed k.value = true := by
      rw [← hl]
      intro k hk
      rcases List.mem_append.1 hk with hk | hk
      · exact h.lines k hk
      · exact hd _ (value_mem hk)
    refine ⟨rfl, fun k hk => hall k (List.mem_cons_of_mem _ hk), fun k hk => ?_⟩
    cases hk
    exact hall l (List.mem_cons_self ..)
  | readNull r hr =>
    refine ⟨h.rsp, h.lines, fun l hl => ?_⟩
    cases hl
  | readValue r v hr =>
    refine ⟨isBool_of_parsed (h.reading _ hr), h.lines, fun l hl => ?_⟩
    cases hl

theorem step_lockInv (h : LockInv s) (hs : Step s a u) : LockInv u :=
  ⟨step_lock h hs, step_documents h.documents hs⟩

theorem init_lockInv : LockInv init where
  lock := .free rfl fun _ => id
  documents := ⟨rfl, nofun, nofun⟩

theorem run_lockInv (hr : Sys.run step init acts = some s) : LockInv s :=
  Sys.run_invariant (fun _ _ _ h hs => step_lockInv h (step_cases hs)) init_lockInv hr

theorem step_callStep {s : JSONSystem} (ht : s.CanStep t) :
    step s (.callStep t) = s.callStep t := by
  cases t with
  | client => simp only [step, ht rfl]
  | user n => rfl

def Sent (s : JSONSystem) (r : Request) : Prop := r ∈ s.written ∨ .write r ∈ s.events

/-- The call has the mutex and its request is still to be sent, or it is sent. -/
def Sends (s : JSONSystem) (t : Thread) (r : Request) : Prop := (s.pc t).Ahead r ∨ s.Sent r

theorem step_sent (h : s.Sent r) (hs : Step s a u) : u.Sent r := by
  cases hs with
  | callClient | callBusy | callLock | clearBusyReq | clearRsp | gotRsp | noResponse | replyBool
  | reply | unlock | handBusy | handLock | handEmit | timeoutNone | timeoutSome | readyRead
  | readNull | readValue => exact h
  | emitBusy t r' ht hp =>
    cases t with
    | client => exact h
    | user n => exact h.imp_right (List.mem_append_left _)
  | sendREQ t r' ht hp =>
    cases t with
    | client => exact h.imp_left (List.mem_append_left _)
    | user n => exact h.imp_right (List.mem_append_left _)
  | deliverBusy r' es hf he =>
    rw [Sent, he] at h
    refine h.imp_right fun hm => ?_
    cases hm with
    | tail _ hm => exact hm
  | deliverWrite r' es hf he =>
    rw [Sent, he] at h
    rcases h with hw | hm
    · exact .inl (List.mem_append_left _ hw)
    · cases hm with
      | head => exact .inl (List.mem_append_right _ (List.mem_singleton_self r))
      | tail _ hm => exact .inr hm

theorem sent_sendREQ (s : JSONSystem) (t : Thread) (r : Request) : (s.sendREQ t r).Sent r := by
  cases t with
  | client => exact .inl (List.mem_append_right _ (List.mem_singleton_self r))
  | user n => exact .inr (List.mem_append_right _ (List.mem_singleton_self _))

theorem ahead_update {pc : Thread → CallPc} {x y : CallPc} (h : (pc t).Ahead r) (hy : pc v = y)
    (hx : y.Ahead r → x.Ahead r) : (Function.update pc v x t).Ahead r := by
  by_cases ht : t = v
  · subst ht
    rw [Function.update_self]
    exact hx (hy ▸ h)
  · rwa [Function.update_of_ne ht]

theorem step_sends (h : s.Sends t r) (hs : Step s a u) : u.Sends t r := by
  rcases h with h | h
  case inr => exact .inr (step_sent h hs)
  cases hs with
  | callClient | handBusy | handEmit | deliverBusy | deliverWrite | timeoutNone | timeoutSome
  | readyRead | readNull | readValue => exact .inl h
  | callBusy n cmd arg hp hm => exact .inl (ahead_update h hp id)
  | callLock n cmd arg hp hm => exact .inl (ahead_update h hp False.elim)
  | clearBusyReq v r' ht hp => exact .inl (ahead_update h hp id)
  | clearRsp v r' ht hp => exact .inl (ahead_update h hp id)
  | gotRsp v r' ht hp a hr => exact .inl (ahead_update h hp id)
  | noResponse v r' ht hp hr => exact .inl (ahead_update h hp id)
  | replyBool v r' ht hp hb => exact .inl (ahead_update h hp id)
  | reply v r' ht hp hb => exact .inl (ahead_update h hp id)
  | unlock v r' o ht hp => exact .inl (ahead_update h hp id)
  | handLock r' hh hm hp => exact .inl (ahead_update h hp False.elim)
  | emitBusy v r' ht hp =>
    left
    change (Function.update (s.emitBusy v r').pc v .idle t).Ahead r
    rw [emitBusy_pc]
    exact ahead_update h hp id
  | sendREQ v r' ht hp =>
    by_cases he : t = v
    · subst he
      rw [hp] at h
      exact .inr (h ▸ sent_sendREQ s t r')
    · left
      change (Function.update (s.sendREQ v r').pc v (.waiting r') t).Ahead r
      rwa [sendREQ_pc, Function.update_of_ne he]

/-- The call sends its request, whatever goes on beside it, and it can do so at once. -/
def SendsSurely (s : JSONSystem) (t : Thread) (r : Request) : Prop :=
  (∀ more u, Sys.run step s more = some u → u.Sends t r) ∧
    ∃ u, Sys.run step s (List.replicate 3 (.callStep t)) = some u ∧ u.Sent r

theorem locked_sends {s : JSONSystem} (ht : s.CanStep t) (hp : s.pc t = .locked r) :
    s.SendsSurely t r := by
  have hahead : s.Sends t r := .inl (hp.symm ▸ rfl)
  refine ⟨fun more u hu => Sys.run_invariant (I := fun u => u.Sends t r)
    (fun _ _ _ h hs => step_sends h (step_cases hs)) hahead hu, ?_⟩
  have hs : step s (.callStep t) = some ((s.clearBusyReq r).goto t (.slotCleared r)) := by
    rw [step_callStep ht, callStep, hp]
  generalize hv : (s.clearBusyReq r).goto t (.slotCleared r) = v at hs
  have hvp : v.pc t = .slotCleared r := hv ▸ Function.update_self ..
  have hvt : v.CanStep t := hv ▸ ht
  have hs' : step v (.callStep t) = some (v.clearRsp.goto t (.rspCleared r)) := by
    rw [step_callStep hvt, callStep, hvp]
  generalize hw : v.clearRsp.goto t (.rspCleared r) = w at hs'
  have hwp : w.pc t = .rspCleared r := hw ▸ Function.update_self ..
  have hwt : w.CanStep t := hw ▸ hvt
  have hs'' : step w (.callStep t) = some ((w.sendREQ t r).goto t (.waiting r)) := by
    rw [step_callStep hwt, callStep, hwp]
  exact ⟨_, Sys.run_cons_eq_some.2 ⟨v, hs, Sys.run_cons_eq_some.2 ⟨w, hs',
    Sys.run_cons_eq_some.2 ⟨_, hs'', rfl⟩⟩⟩, sent_sendREQ w t r⟩

theorem call_sends {s : JSONSystem} (hm : s.client.mutex = false) (hp : s.pc (.user n) = .idle)
    (cmd : String) (arg : QVariant) : ∃ u, step s (.call (.user n) cmd arg) = some u ∧
      u.SendsSurely (.user n) (s.newRequest (.user n) cmd arg) := by
  have hs : step s (.call (.user n) cmd arg) = some ({ s.setMutex true with
      calls := s.calls + 1 }.goto (.user n) (.locked (s.newRequest (.user n) cmd arg))) := by
    simp only [step, hp, hm, Bool.false_eq_true, if_false]
  refine ⟨_, hs, locked_sends ?_ (Function.update_self (Thread.user n) _ s.pc)⟩
  intro ht
  cases ht

theorem hand_sends {s : JSONSystem} (hm : s.client.mutex = false) (hp : s.pc .client = .idle)
    (hh : s.hand = .tryLock r) (hr : s.reading = none) :
    ∃ u, step s .handStep = some u ∧ u.SendsSurely .client r := by
  have hs : step s .handStep =
      some ({ s.setMutex true with hand := .idle }.goto .client (.locked r)) := by
    simp only [step, handStep, hh, hm, hp, Bool.false_eq_true, if_false]
  exact ⟨_, hs, locked_sends (fun _ => ⟨rfl, hr⟩) (Function.update_self Thread.client _ s.pc)⟩

/-- The mutex is held just as long as a call is between its lock and its unlock. So it is free when
no call is under way, and a call made then sends its request, whichever thread makes it. -/
theorem call_releases_mutex (hr : Sys.run step init acts = some s) :
    (s.client.mutex = true ↔ ∃ t, (s.pc t).Inside) ∧ ((∀ t, s.pc t = .idle) →
      s.client.mutex = false ∧
      (∀ n cmd arg, ∃ u, step s (.call (.user n) cmd arg) = some u ∧
        u.SendsSurely (.user n) (s.newRequest (.user n) cmd arg)) ∧
      ∀ r, s.hand = .tryLock r → s.reading = none →
        ∃ u, step s .handStep = some u ∧ u.SendsSurely .client r) := by
  have hlock := (run_lockInv hr).lock
  refine ⟨hlock.mutex_iff, fun hi => ?_⟩
  have hm : s.client.mutex = false := by
    rw [Bool.eq_false_iff]
    intro ht
    obtain ⟨t, hin⟩ := hlock.mutex_iff.1 ht
    rw [hi t] at hin
    exact hin
  exact ⟨hm, fun n => call_sends hm (hi _), fun r => hand_sends hm (hi _)⟩

/-- A call of one thread that the server answers at once. -/
def answeredCall (v : QVariant) : List Act :=
  [.call (.user 0) "GET" .null, .callStep (.user 0), .callStep (.user 0), .callStep (.user 0),
    .deliver, .readyRead [some v], .readDone, .callStep (.user 0), .callStep (.user 0)]

/-- One call is answered by a list and one, whose answer is no document, by nothing. -/
theorem call_releases_mutex_twice : ∃ s, Sys.run step init
      (answeredCall (.list [.bool true]) ++ [.callStep (.user 0)] ++
        [.call (.user 0) "GET" .null, .callStep (.user 0), .callStep (.user 0), .callStep (.user 0),
          .deliver, .readyRead [none], .readDone, .callStep (.user 0), .callStep (.user 0)]) =
        some s ∧ s.returned.length = 2 ∧ s.client.mutex = false := by
  obtain ⟨s, hs, hlen, hi⟩ : ∃ s, Sys.run step init
      (answeredCall (.list [.bool true]) ++ [.callStep (.user 0)] ++
        [.call (.user 0) "GET" .null, .callStep (.user 0), .callStep (.user 0), .callStep (.user 0),
          .deliver, .readyRead [none], .readDone, .callStep (.user 0), .callStep (.user 0)]) =
        some s ∧ s.returned.length = 2 ∧ ∀ t, s.pc t = .idle :=
    ⟨_, rfl, rfl, by rintro (_ | _ | n) <;> rfl⟩
  exact ⟨s, hs, hlen, ((call_releases_mutex hs).2 hi).1⟩

end JSONSystem
end Avs4000
