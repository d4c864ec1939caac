import Avs4000.JSONSteps

namespace Avs4000
set_option autoImplicit true

/-- The client with what `Init` makes and `Uninit` deletes. The socket may be null, else it is valid
or not; `sys.client.timer` tells if the timer runs, where there is one. -/
structure JSONConnection where
  sys : JSONSystem
  initialized : Bool
  hasTimer : Bool
  socket : Option Bool

namespace JSONSystem

def setTimer (s : JSONSystem) (b : Bool) : JSONSystem :=
  { s with client := { s.client with timer := b } }

/-- The connection is gone, and with it the answers that are not read. -/
def dropAnswers (s : JSONSystem) : JSONSystem :=
  { s with lines := [], answered := s.written.length }

/-- A step of a thread other than that of the client. -/
def ofUser : Act → Bool
  | .call (.user _) _ _ | .callStep (.user _) => true
  | _ => false

/-- A pending request has the timer running. -/
def Timed (s : JSONSystem) : Prop := s.client.busyReq.isSome = true → s.client.timer = true

end JSONSystem

namespace JSONConnection

/-- What the constructor leaves, with `Initialize` as the first event of the client thread. -/
def start : JSONConnection := ⟨JSONSystem.init, false, false, none⟩

def deleteSocket (s : JSONConnection) : JSONConnection :=
  if s.socket.isSome then { s with socket := none, sys := s.sys.dropAnswers } else s

def deleteTimer (s : JSONConnection) : JSONConnection :=
  if s.hasTimer then { s with hasTimer := false, sys := s.sys.setTimer false } else s

def uninit (s : JSONConnection) : JSONConnection := s.deleteSocket.deleteTimer

/-- A new timer does not run. -/
def newTimer (s : JSONConnection) : JSONConnection :=
  if s.hasTimer then s else { s with hasTimer := true, sys := s.sys.setTimer false }

/-- `Init`. The connection to the server is made, or it fails. -/
def init (s : JSONConnection) (connects : Bool) : JSONConnection :=
  { s.uninit.newTimer with socket := some connects }

/-- `Reconnect` emits `Initialize` in the client thread, which runs `Init` at once. -/
def reconnect (s : JSONConnection) (connects : Bool) : JSONConnection := s.init connects

inductive Act
  | init (connects : Bool)
  | json (a : JSONSystem.Act)
  | disconnected (connects : Bool)

/-- The client thread does nothing before `Init`, and reads only from a valid socket. What
`WriteREQ` is given when the socket is not valid goes nowhere, and no socket comes after that
one. -/
def canRun (s : JSONConnection) : JSONSystem.Act → Bool
  | .readyRead _ => s.initialized && s.socket.getD false
  | a => s.initialized || JSONSystem.ofUser a

def step (s : JSONConnection) : Act → Option JSONConnection
  | .init connects =>
    if s.initialized then none else some { s.init connects with initialized := true }
  | .json a =>
    if s.canRun a then (s.sys.step a).map fun sys => { s with sys := sys } else none
  | .disconnected connects =>
    if s.socket.getD false && s.sys.clientFree then some (s.reconnect connects) else none

/-- A pending busy request has a timer, which runs. -/
def Armed (s : JSONConnection) : Prop :=
  s.sys.client.busyReq.isSome = true → s.hasTimer = true ∧ s.sys.client.timer = true

/-- No busy request is pending at a reconnect. -/
def Quiet (s : JSONConnection) : Act → Prop
  | .disconnected _ => s.sys.client.busyReq = none
  | .init _ | .json _ => True

end JSONConnection

namespace JSONSystem

theorem timed_busyREQ (s : JSONSystem) (r : Request) : (s.busyREQ r).Timed := fun _ => rfl

/-- Each step that puts a request in `busyReq` starts the timer, and the one step that stops it
leaves nothing there. -/
theorem step_timed {s u : JSONSystem} (h : s.Timed) (hs : Step s a u) : u.Timed := by
  cases hs with
  | callClient | callBusy | callLock | clearRsp | gotRsp | noResponse | replyBool | reply | unlock
  | handBusy | handLock | deliverWrite | readyRead | readNull | readValue => exact h
  | emitBusy t r ht hp =>
    cases t with
    | client => exact timed_busyREQ s r
    | user n => exact h
  | sendREQ t r ht hp =>
    cases t with
    | client | user n => exact h
  | clearBusyReq t r ht hp =>
    intro hb
    cases hb
  | handEmit r hh => exact timed_busyREQ s r
  | deliverBusy r es hf he => exact timed_busyREQ _ r
  | timeoutNone hf hr =>
    intro hb
    rw [hr] at hb
    cases hb
  | timeoutSome r hf hr =>
    intro hb
    cases hb

/-- Only the client thread puts a request in `busyReq`. -/
theorem step_ofUser {s u : JSONSystem} (ha : ofUser a = true) (h : s.client.busyReq = none)
    (hs : Step s a u) : u.client.busyReq = none := by
  cases hs with
  | callClient | handBusy | handLock | handEmit | deliverBusy | deliverWrite | timeoutNone
  | timeoutSome | readyRead | readNull | readValue => cases ha
  | callBusy | callLock | clearRsp | gotRsp | noResponse | replyBool | reply | unlock => exact h
  | clearBusyReq => rfl
  | emitBusy t r ht hp =>
    cases t with
    | client => cases ha
    | user n => exact h
  | sendREQ t r ht hp =>
    cases t with
    | client => cases ha
    | user n => exact h

end JSONSystem

namespace JSONConnection

/-- There is a timer once `Init` has run, and a socket only then. -/
structure Invariant (s : JSONConnection) : Prop where
  armed : s.Armed
  timer : s.hasTimer = s.initialized
  socket : s.socket.isSome = true → s.initialized = true

theorem invariant_start : start.Invariant where
  armed h := by cases h
  timer := rfl
  socket h := by cases h

theorem Invariant.busyReq_none {s : JSONConnection} (hi : s.Invariant)
    (hn : s.initialized = false) : s.sys.client.busyReq = none := by
  cases hr : s.sys.client.busyReq with
  | none => rfl
  | some r =>
    have hm : s.hasTimer = true := (hi.armed (hr ▸ rfl)).1
    rw [hi.timer, hn] at hm
    cases hm

theorem uninit_hasTimer (s : JSONConnection) : s.uninit.hasTimer = false := by
  unfold uninit deleteTimer
  split
  · rfl
  · next h => exact Bool.not_eq_true _ ▸ h

theorem uninit_busyReq (s : JSONConnection) :
    s.uninit.sys.client.busyReq = s.sys.client.busyReq := by
  unfold uninit deleteTimer deleteSocket
  split <;> split <;> rfl

theorem uninit_initialized (s : JSONConnection) :
    s.uninit.initialized = s.initialized := by
  unfold uninit deleteTimer deleteSocket
  split <;> split <;> rfl

theorem init_eq (s : JSONConnection) (connects : Bool) :
    s.init connects = ⟨s.uninit.sys.setTimer false, s.initialized, true, some connects⟩ := by
  have hn : ¬s.uninit.hasTimer = true := fun h => by
    rw [uninit_hasTimer] at h
    cases h
  rw [init, newTimer, if_neg hn, uninit_initialized]

theorem init_armed_iff (s : JSONConnection) (connects : Bool) :
    (s.init connects).Armed ↔ s.sys.client.busyReq = none := by
  have hbusy : (s.uninit.sys.setTimer false).client.busyReq = s.sys.client.busyReq :=
    uninit_busyReq s
  rw [init_eq, Armed, hbusy]
  cases s.sys.client.busyReq with
  | none => exact ⟨fun _ => rfl, fun _ h => by cases h⟩
  | some r =>
    constructor
    · intro h
      cases (h rfl).2
    · intro h
      cases h

theorem step_json_cases {s t : JSONConnection} (h : step s (.json a) = some t) :
    s.canRun a = true ∧ ∃ sys, JSONSystem.Step s.sys a sys ∧ t = { s with sys := sys } := by
  simp only [step] at h
  split at h
  · next hc =>
    obtain ⟨sys, hs, rfl⟩ := Option.map_eq_some_iff.1 h
    exact ⟨hc, sys, JSONSystem.step_cases hs, rfl⟩
  · cases h

theorem canRun_uninitialized {s : JSONConnection} (h : s.initialized = false)
    (hc : s.canRun a = true) : JSONSystem.ofUser a = true := by
  unfold canRun at hc
  rw [h] at hc
  split at hc
  · cases hc
  · exact hc

theorem step_json {s t : JSONConnection} (hi : s.Invariant) (h : step s (.json a) = some t) :
    t.Invariant := by
  obtain ⟨hc, sys, hs, rfl⟩ := step_json_cases h
  have harmed : Armed { s with sys := sys } := by
    intro hb
    cases hn : s.initialized with
    | true =>
      -- `BusyREQ` finds the timer that `Init` has made.
      have htimed : sys.Timed := JSONSystem.step_timed (fun hb => (hi.armed hb).2) hs
      exact ⟨hi.timer.trans hn, htimed hb⟩
    | false =>
      have hnone : sys.client.busyReq = none :=
        JSONSystem.step_ofUser (canRun_uninitialized hn hc) (hi.busyReq_none hn) hs
      rw [hnone] at hb
      cases hb
  exact ⟨harmed, hi.timer, hi.socket⟩

theorem step_init {s t : JSONConnection} (hi : s.Invariant)
    (h : step s (.init connects) = some t) : t.Invariant := by
  simp only [step] at h
  split at h
  · cases h
  · next hn =>
    cases h
    have hnone : s.sys.client.busyReq = none := hi.busyReq_none (Bool.not_eq_true _ ▸ hn)
    have htimer : (s.init connects).hasTimer = true := init_eq s connects ▸ rfl
    exact ⟨(init_armed_iff s connects).2 hnone, htimer, fun _ => rfl⟩

theorem step_disconnected {s t : JSONConnection} (hi : s.Invariant)
    (h : step s (.disconnected connects) = some t) :
    (s.Quiet (.disconnected connects) → t.Invariant) ∧
      (¬s.Quiet (.disconnected connects) → ¬t.Armed) := by
  simp only [step] at h
  split at h
  · next hc =>
    cases h
    rw [Bool.and_eq_true] at hc
    have hsocket : s.socket.isSome = true := by
      cases hs : s.socket with
      | none =>
        rw [hs] at hc
        cases hc.1
      | some valid => rfl
    have hinit : (s.reconnect connects).initialized = true := by
      rw [reconnect, init_eq]
      exact hi.socket hsocket
    have htimer : (s.reconnect connects).hasTimer = true := by
      rw [reconnect, init_eq]
    constructor
    · intro hq
      exact ⟨(init_armed_iff s connects).2 hq, htimer.trans hinit.symm, fun _ => hinit⟩
    · intro hq ha
      exact hq ((init_armed_iff s connects).1 ha)
  · cases h

theorem step_invariant {s t : JSONConnection} (hi : s.Invariant) (h : step s a = some t) :
    (s.Quiet a → t.Invariant) ∧ (¬s.Quiet a → ¬t.Armed) := by
  cases a with
  | init connects => exact ⟨fun _ => step_init hi h, fun hn => absurd trivial hn⟩
  | json a => exact ⟨fun _ => step_json hi h, fun hn => absurd trivial hn⟩
  | disconnected connects => exact step_disconnected hi h

/-- A pending request has a running timer all through a run exactly if none is pending at any of
its reconnects. -/
theorem armed_iff_quiet {t : JSONConnection} (hr : Sys.run step start acts = some t) :
    (∀ pre post u, acts = pre ++ post → Sys.run step start pre = some u → u.Armed) ↔
      Sys.Along step Quiet start acts :=
  Sys.forall_reached_iff_along (H := fun _ _ => True) (fun _ hi => hi.armed)
    (fun _ _ _ hi _ h => step_invariant hi h) invariant_start (Sys.along_true step start acts) hr

/-- One reconnect before anything is asked, and a busy request after it. -/
theorem armed_after_reconnect :
    let acts : List Act := [.init true, .disconnected true, .json (.call (.user 0) "GET" .invalid),
      .json (.call (.user 1) "SET" (.bool true)), .json (.callStep (.user 1)), .json .deliver]
    ∃ t, Sys.run step start acts = some t ∧ t.sys.client.busyReq.isSome = true ∧ t.Armed := by
  intro acts
  obtain ⟨t, hr, hb⟩ : ∃ t, Sys.run step start acts = some t ∧
      t.sys.client.busyReq.isSome = true := ⟨_, rfl, rfl⟩
  have hq : Sys.Along step Quiet start acts :=
    .cons trivial rfl (.cons rfl rfl (.cons trivial rfl (.cons trivial rfl
      (.cons trivial rfl (.cons trivial rfl trivial)))))
  exact ⟨t, hr, hb, (armed_iff_quiet hr).2 hq acts [] t (List.append_nil acts).symm hr⟩

/-- The connection drops while a busy request waits for its timer. -/
theorem busy_request_stranded : ∃ acts t, Sys.run step start acts = some t ∧ ¬t.Armed := by
  refine ⟨[.init true, .json (.call (.user 0) "GET" .invalid),
    .json (.call (.user 1) "SET" (.bool true)), .json (.callStep (.user 1)), .json .deliver,
    .disconnected true], _, rfl, ?_⟩
  intro h
  cases (h rfl).2

/-- As long as its socket is valid, the client is the one of `JSONSystem`. -/
theorem run_json {s : JSONConnection} (hn : s.initialized = true) (hs : s.socket = some true)
    (acts : List JSONSystem.Act) :
    Sys.run step s (acts.map .json) =
      (Sys.run JSONSystem.step s.sys acts).map fun sys => { s with sys := sys } := by
  induction acts generalizing s with
  | nil => rfl
  | cons a acts ih =>
    have hc : s.canRun a = true := by
      unfold canRun
      rw [hn, hs]
      split <;> rfl
    have hstep : step s (.json a) =
        (s.sys.step a).map fun sys => { s with sys := sys } := if_pos hc
    rw [List.map_cons, Sys.run, hstep, Sys.run]
    cases s.sys.step a with
    | none => rfl
    | some u => exact ih (s := { s with sys := u }) hn hs

end JSONConnection
end Avs4000
