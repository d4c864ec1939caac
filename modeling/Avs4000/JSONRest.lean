import Avs4000.JSONLedger
import Avs4000.JSONLock
import Avs4000.Lib.Rank

namespace Avs4000
set_option autoImplicit true

/-- The thread is the client's, or one of the first `N` others. -/
def Thread.Below (N : Nat) : Thread → Prop
  | client => True
  | user n => n < N

/-- The steps that are left, with those of the client thread and of the reader that they lead to. -/
def CallPc.work : CallPc → Nat
  | idle => 0
  | busy _ => 11
  | locked _ => 9
  | slotCleared _ => 8
  | rspCleared _ => 7
  | waiting _ => 3
  | gotRsp _ => 2
  | unlocking _ _ => 1

theorem CallPc.work_eq_zero {x : CallPc} : x.work = 0 ↔ x = .idle := by
  cases x with
  | idle => exact ⟨fun _ => rfl, fun _ => rfl⟩
  | _ => exact ⟨nofun, nofun⟩

def Event.work : Event → Nat
  | busy _ => 10
  | write _ => 3

def eventsWork : List Event → Nat
  | [] => 0
  | e :: es => e.work + eventsWork es

theorem eventsWork_concat (es : List Event) (e : Event) :
    eventsWork (es ++ [e]) = eventsWork es + e.work := by
  induction es with
  | nil => exact Nat.add_comm ..
  | cons d es ih => rw [List.cons_append, eventsWork, ih, eventsWork, Nat.add_assoc]

def HandPc.work : HandPc → Nat
  | idle => 0
  | tryLock _ | busy _ => 9

def workBelow (pc : Thread → CallPc) : Nat → Nat
  | 0 => (pc .client).work
  | n + 1 => workBelow pc n + (pc (.user n)).work

theorem workBelow_idle {pc : Thread → CallPc} (h : ∀ t, pc t = .idle) : workBelow pc N = 0 := by
  induction N with
  | zero => exact CallPc.work_eq_zero.2 (h _)
  | succ N ih => rw [workBelow, ih, CallPc.work_eq_zero.2 (h _)]

theorem workBelow_update_ge (pc : Thread → CallPc) (x : CallPc) (h : N ≤ n) :
    workBelow (Function.update pc (.user n) x) N = workBelow pc N := by
  induction N with
  | zero =>
    have hne : Thread.client ≠ .user n := nofun
    rw [workBelow, workBelow, Function.update_of_ne hne]
  | succ N ih =>
    have hne : Thread.user N ≠ .user n := fun he => Nat.ne_of_lt h (Thread.user.inj he)
    rw [workBelow, workBelow, ih (Nat.le_of_succ_le h), Function.update_of_ne hne]

theorem workBelow_update (pc : Thread → CallPc) (x : CallPc) (ht : t.Below N) :
    workBelow (Function.update pc t x) N + (pc t).work = workBelow pc N + x.work := by
  induction N with
  | zero =>
    cases t with
    | client =>
      rw [workBelow, workBelow, Function.update_self, Nat.add_comm]
    | user n => exact absurd ht (Nat.not_lt_zero n)
  | succ N ih =>
    rw [workBelow, workBelow]
    by_cases he : t = .user N
    · subst he
      rw [workBelow_update_ge pc x (Nat.le_refl N), Function.update_self, Nat.add_right_comm]
    · have htN : t.Below N := by
        cases t with
        | client => trivial
        | user n =>
          have hne : n ≠ N := fun hn => he (congrArg Thread.user hn)
          exact Nat.lt_of_le_of_ne (Nat.le_of_lt_succ ht) hne
      rw [Function.update_of_ne (Ne.symm he), Nat.add_right_comm, ih htN, Nat.add_right_comm]

namespace JSONSystem

/-- A step that is not the beginning of a call. Those by which a call in the client's thread finds
the mutex free or taken are left out, as `SendBusyReq` tries again by them. -/
def Act.isWork : Act → Bool
  | .call .. | .timeout | .handStep => false
  | .callStep _ | .deliver | .readyRead _ | .readDone => true

def Act.isCall : Act → Bool
  | .call .. => true
  | _ => false

def Act.Below (N : Nat) : Act → Prop
  | .call t _ _ | .callStep t => t.Below N
  | _ => True

/-- The work that the calls so far still lead to, of the client's thread and `N` others. -/
def work (N : Nat) (s : JSONSystem) : Nat :=
  workBelow s.pc N + eventsWork s.events + s.hand.work +
    9 * s.client.busyReq.toList.length + 2 * (s.written.length - s.answered) +
    2 * s.lines.length + s.reading.toList.length

theorem work_goto {s u : JSONSystem} {x y : CallPc} (ht : t.Below N)
    (hp : u.pc = Function.update s.pc t x) (hy : s.pc t = y) (he : u.events = s.events)
    (hh : u.hand = s.hand) (hb : u.client.busyReq.toList.length ≤ s.client.busyReq.toList.length)
    (hw : u.written = s.written) (ha : u.answered = s.answered) (hl : u.lines = s.lines)
    (hr : u.reading = s.reading) : u.work N + y.work ≤ s.work N + x.work := by
  have hpc := workBelow_update s.pc x ht
  rw [hy] at hpc
  rw [work, work, hp, he, hh, hw, ha, hl, hr]
  omega

theorem work_callStep {s u : JSONSystem} {x y : CallPc} (ht : t.Below N)
    (hp : u.pc = Function.update s.pc t x) (hy : s.pc t = y) (hx : x.work + 1 ≤ y.work)
    (he : u.events = s.events) (hh : u.hand = s.hand)
    (hb : u.client.busyReq.toList.length ≤ s.client.busyReq.toList.length)
    (hw : u.written = s.written) (ha : u.answered = s.answered) (hl : u.lines = s.lines)
    (hr : u.reading = s.reading) (hc : u.calls = s.calls) :
    u.work N + 1 + 11 * s.calls ≤ s.work N + 11 * u.calls := by
  have hle := work_goto ht hp hy he hh hb hw ha hl hr
  omega

theorem step_answered {s u : JSONSystem} (h : s.answered ≤ s.written.length) (hs : Step s a u) :
    u.answered ≤ u.written.length := by
  cases hs with
  | callClient | callBusy | callLock | clearBusyReq | clearRsp | gotRsp | noResponse | replyBool
  | reply | unlock | handBusy | handLock | handEmit | deliverBusy | timeoutNone | timeoutSome
  | readNull | readValue => exact h
  | emitBusy t r ht hp =>
    cases t with
    | client | user n => exact h
  | sendREQ t r ht hp =>
    cases t with
    | client =>
      refine Nat.le_trans h ?_
      exact List.length_append ▸ Nat.le_add_right ..
    | user n => exact h
  | deliverWrite r es hf he =>
    refine Nat.le_trans h ?_
    exact List.length_append ▸ Nat.le_add_right ..
  | readyRead values l rest hf hd hv hn hl => exact hn

theorem step_work {s u : JSONSystem} (h : s.answered ≤ s.written.length) (hN : a.Below N)
    (hs : Step s a u) :
    u.work N + (if a.isWork then 1 else 0) + 11 * s.calls ≤ s.work N + 11 * u.calls := by
  cases hs with
  | callClient cmd arg hf =>
    simp only [work, hf.hand, HandPc.work, Act.isWork, Bool.false_eq_true, if_false]
    omega
  | callBusy n cmd arg hp hm =>
    have hpc := workBelow_update (t := .user n) s.pc (.busy (s.newRequest (.user n) cmd arg)) hN
    simp only [hp, CallPc.work] at hpc
    simp only [work, goto, Act.isWork, Bool.false_eq_true, if_false]
    omega
  | callLock n cmd arg hp hm =>
    have hpc := workBelow_update (t := .user n) s.pc (.locked (s.newRequest (.user n) cmd arg)) hN
    simp only [hp, CallPc.work] at hpc
    simp only [work, goto, setMutex, Act.isWork, Bool.false_eq_true, if_false]
    omega
  | emitBusy t r ht hp =>
    have hpc := workBelow_update s.pc .idle hN
    simp only [hp, CallPc.work] at hpc
    cases t with
    | client =>
      simp only [work, JSONSystem.emitBusy, if_true, goto, ret, busyREQ, Option.toList_some,
        List.length_singleton, Act.isWork]
      omega
    | user n =>
      simp only [work, JSONSystem.emitBusy, reduceCtorEq, if_false, goto, ret, eventsWork_concat,
        Event.work, Act.isWork, if_true]
      omega
  | clearBusyReq t r ht hp =>
    exact work_callStep hN rfl hp (Nat.le_refl 9) rfl rfl (Nat.zero_le _) rfl rfl rfl rfl rfl
  | clearRsp t r ht hp =>
    exact work_callStep hN rfl hp (Nat.le_refl 8) rfl rfl (Nat.le_refl _) rfl rfl rfl rfl rfl
  | sendREQ t r ht hp =>
    have hpc := workBelow_update s.pc (.waiting r) hN
    simp only [hp, CallPc.work] at hpc
    cases t with
    | client =>
      simp only [work, JSONSystem.sendREQ, if_true, goto, writeREQ, JSONSystem.clearRsp,
        List.length_append, List.length_singleton, Act.isWork]
      omega
    | user n =>
      simp only [work, JSONSystem.sendREQ, reduceCtorEq, if_false, goto, eventsWork_concat,
        Event.work, Act.isWork, if_true]
      omega
  | gotRsp t r ht hp a hr =>
    exact work_callStep hN rfl hp (Nat.le_refl 3) rfl rfl (Nat.le_refl _) rfl rfl rfl rfl rfl
  | noResponse t r ht hp hr =>
    exact work_callStep hN rfl hp (Nat.le_succ 2) rfl rfl (Nat.le_refl _) rfl rfl rfl rfl rfl
  | replyBool t r ht hp hb =>
    exact work_callStep hN rfl hp (Nat.le_succ 1) rfl rfl (Nat.le_refl _) rfl rfl rfl rfl rfl
  | reply t r ht hp hb =>
    exact work_callStep hN rfl hp (Nat.le_refl 2) rfl rfl (Nat.le_refl _) rfl rfl rfl rfl rfl
  | unlock t r o ht hp =>
    exact work_callStep hN rfl hp (Nat.le_refl 1) rfl rfl (Nat.le_refl _) rfl rfl rfl rfl rfl
  | handBusy r hh hm => exact Nat.le_of_eq (by rw [work, work, hh]; rfl)
  | handLock r hh hm hp =>
    have hpc := workBelow_update (N := N) (t := .client) s.pc (.locked r) trivial
    simp only [hp, CallPc.work] at hpc
    simp only [work, goto, setMutex, hh, HandPc.work, Act.isWork, Bool.false_eq_true, if_false]
    omega
  | handEmit r hh =>
    simp only [work, ret, busyREQ, hh, HandPc.work, Option.toList_some, List.length_singleton,
      Act.isWork, Bool.false_eq_true, if_false]
    omega
  | deliverBusy r es hf he =>
    simp only [work, busyREQ, he, eventsWork, Event.work, Option.toList_some,
      List.length_singleton, Act.isWork, if_true]
    omega
  | deliverWrite r es hf he =>
    simp only [work, writeREQ, JSONSystem.clearRsp, he, eventsWork, Event.work,
      List.length_append, List.length_singleton, Act.isWork, if_true]
    omega
  | timeoutNone hf hr => exact Nat.le_refl _
  | timeoutSome r hf hr =>
    simp only [work, hf.hand, hr, HandPc.work, Option.toList_some, Option.toList_none,
      List.length_singleton, List.length_nil, Act.isWork, Bool.false_eq_true, if_false]
    omega
  | readyRead values l rest hf hd hv hn hl =>
    have hlen := congrArg List.length hl
    have hpos := List.length_pos_iff.2 hv
    simp only [List.length_append, List.length_zipWith, List.length_drop, List.length_cons] at hlen
    simp only [work, JSONSystem.clearRsp, hf.reading, Option.toList_some, Option.toList_none,
      List.length_singleton, List.length_nil, Act.isWork, if_true]
    omega
  | readNull r hr =>
    simp only [work, hr, Option.toList_some, Option.toList_none, List.length_singleton,
      List.length_nil, Act.isWork, if_true]
    omega
  | readValue r v hr =>
    simp only [work, hr, Option.toList_some, Option.toList_none, List.length_singleton,
      List.length_nil, Act.isWork, if_true]
    omega

theorem step_calls_eq {s u : JSONSystem} (ha : a.isCall = false) (hs : Step s a u) :
    u.calls = s.calls := by
  cases hs with
  | callClient | callBusy | callLock => cases ha
  | emitBusy t r ht hp =>
    cases t with
    | client | user n => rfl
  | sendREQ t r ht hp =>
    cases t with
    | client | user n => rfl
  | clearBusyReq | clearRsp | gotRsp | noResponse | replyBool | reply | unlock | handBusy
  | handLock | handEmit | deliverBusy | deliverWrite | timeoutNone | timeoutSome | readyRead
  | readNull | readValue => rfl

/-- Only the threads below have made calls. -/
def Beyond (N : Nat) (s : JSONSystem) : Prop := ∀ n, N ≤ n → s.pc (.user n) = .idle

theorem beyond_update {pc : Thread → CallPc} (h : ∀ n, N ≤ n → pc (.user n) = .idle)
    (ht : t.Below N) (x : CallPc) (n : Nat) (hn : N ≤ n) :
    Function.update pc t x (.user n) = .idle := by
  have hne : Thread.user n ≠ t := by
    rintro rfl
    exact Nat.not_lt.2 hn ht
  rw [Function.update_of_ne hne, h n hn]

theorem step_beyond {s u : JSONSystem} (h : s.Beyond N) (hN : a.Below N) (hs : Step s a u) :
    u.Beyond N := by
  cases hs with
  | callClient | handBusy | handEmit | deliverBusy | deliverWrite | timeoutNone | timeoutSome
  | readyRead | readNull | readValue => exact h
  | callBusy n cmd arg hp hm => exact beyond_update (t := .user n) h hN _
  | callLock n cmd arg hp hm => exact beyond_update (t := .user n) h hN _
  | clearBusyReq | clearRsp | gotRsp | noResponse | replyBool | reply | unlock =>
    exact beyond_update h hN _
  | handLock r hh hm hp => exact beyond_update (t := .client) h trivial (.locked r)
  | emitBusy t r ht hp =>
    have hpc := emitBusy_pc s t r
    exact beyond_update (hpc ▸ h) hN _
  | sendREQ t r ht hp =>
    have hpc := sendREQ_pc s t r
    exact beyond_update (hpc ▸ h) hN _

/-- What every run keeps. -/
structure Steady (N : Nat) (s : JSONSystem) : Prop where
  lock : LockInv s
  timed : s.Timed
  answered : s.answered ≤ s.written.length
  client : ∀ r, s.pc .client ≠ .busy r
  beyond : s.Beyond N

theorem init_steady (N : Nat) : Steady N init :=
  ⟨init_lockInv, nofun, Nat.le_refl _, fun _ => nofun, fun _ _ => rfl⟩

theorem step_steady {s u : JSONSystem} (h : Steady N s) (hN : a.Below N) (hs : Step s a u) :
    Steady N u where
  lock := step_lockInv h.lock hs
  timed := step_timed h.timed hs
  answered := step_answered h.answered hs
  client := step_client h.client hs
  beyond := step_beyond h.beyond hN hs

/-- Nothing is under way. -/
structure Rest (s : JSONSystem) : Prop where
  pc : ∀ t, s.pc t = .idle
  hand : s.hand = .idle
  reading : s.reading = none
  events : s.events = []
  busyReq : s.client.busyReq = none

/-- The steps of the client thread before it gets on with some work, once the others are idle. -/
def phase (s : JSONSystem) : Nat :=
  match s.hand with
  | .idle => if (s.pc .client).work = 0 then 2 else 0
  | .tryLock _ => if s.client.mutex then 2 else 1
  | .busy _ => if (s.pc .client).work = 0 then 3 else 1

theorem phase_le (s : JSONSystem) : s.phase ≤ 3 := by
  unfold phase
  split <;> split <;> decide

def left (N : Nat) (s : JSONSystem) : Nat := 4 * s.work N + s.phase

/-- The client can go on by itself, to a state that is nearer to rest. -/
def Advances (N : Nat) (s : JSONSystem) : Prop :=
  ∃ a u, a.isCall = false ∧ a.Below N ∧ step s a = some u ∧ u.left N < s.left N

theorem Steady.advances {s u : JSONSystem} (h : Steady N s) (hs : step s a = some u)
    (hN : a.Below N) (hw : a.isWork = true) (hc : a.isCall = false) : s.Advances N := by
  have hwork := step_work h.answered hN (step_cases hs)
  have hcalls := step_calls_eq hc (step_cases hs)
  have hphase := phase_le u
  rw [hw, if_pos rfl, hcalls] at hwork
  refine ⟨a, u, hc, hN, hs, ?_⟩
  rw [left, left]
  omega

theorem Steady.retries {s u : JSONSystem} (h : Steady N s) (hs : step s a = some u)
    (hN : a.Below N) (hc : a.isCall = false) (hphase : u.phase < s.phase) : s.Advances N := by
  have hwork := step_work h.answered hN (step_cases hs)
  have hcalls := step_calls_eq hc (step_cases hs)
  rw [hcalls] at hwork
  refine ⟨a, u, hc, hN, hs, ?_⟩
  rw [left, left]
  omega

theorem exists_callStep {s : JSONSystem} (h : s.pc t ≠ .idle) : ∃ u, s.callStep t = some u := by
  cases hp : s.pc t with
  | idle => exact absurd hp h
  | waiting r =>
    simp only [callStep, hp]
    split <;> exact ⟨_, rfl⟩
  | gotRsp r =>
    simp only [callStep, hp]
    split <;> exact ⟨_, rfl⟩
  | busy r | locked r | slotCleared r | rspCleared r | unlocking r o =>
    simp only [callStep, hp]
    exact ⟨_, rfl⟩

theorem Steady.mutex {s : JSONSystem} (h : Steady N s) (hu : ∀ n, s.pc (.user n) = .idle) :
    s.client.mutex = true ↔ s.pc .client ≠ .idle := by
  cases h.lock.lock with
  | free hm hi =>
    refine ⟨fun ht => absurd (hm.symm.trans ht) nofun, fun hne => ?_⟩
    cases hp : s.pc .client with
    | idle => exact absurd hp hne
    | busy r => exact absurd hp (h.client r)
    | locked | slotCleared | rspCleared | waiting | gotRsp | unlocking =>
      have hin := hi .client
      rw [hp] at hin
      exact absurd trivial hin
  | held t hm hi =>
    refine ⟨fun _ hp => ?_, fun _ => hm⟩
    have hin := (hi t).2 rfl
    cases t with
    | client => exact (hp ▸ hin : (CallPc.idle).Inside)
    | user n => exact (hu n ▸ hin : (CallPc.idle).Inside)

/-- Unless the client is at rest, it can go on without another call. -/
theorem Steady.rest_or_advances {s : JSONSystem} (h : Steady N s) : s.Rest ∨ s.Advances N := by
  by_cases hu : ∀ n, s.pc (.user n) = .idle
  case neg =>
    obtain ⟨n, hn⟩ := Classical.not_forall.1 hu
    have hN : n < N := Nat.not_le.1 fun hle => hn (h.beyond n hle)
    obtain ⟨u, hs⟩ := exists_callStep hn
    exact .inr (h.advances (a := .callStep (.user n)) hs hN rfl rfl)
  cases hr : s.reading with
  | some l =>
    obtain ⟨u, hs⟩ : ∃ u, step s .readDone = some u := by
      obtain ⟨r, _ | v⟩ := l
      · exact ⟨_, by simp only [step, hr]; rfl⟩
      · exact ⟨_, by simp only [step, hr]; rfl⟩
    exact .inr (h.advances hs trivial rfl rfl)
  | none =>
    have hmutex := h.mutex hu
    cases hh : s.hand with
    | busy r =>
      have hs : step s .handStep =
          some { (s.emitBusy .client r).ret r .busy with hand := .idle } := by
        simp only [step, handStep, hh]
      refine .inr (h.retries hs trivial rfl ?_)
      simp only [phase, hh, ret, emitBusy_pc]
      split <;> decide
    | tryLock r =>
      by_cases hm : s.client.mutex = true
      · have hs : step s .handStep = some { s with hand := .busy r } := by
          simp only [step, handStep, hh, hm, if_true]
        have hne : (s.pc .client).work ≠ 0 := fun hz => hmutex.1 hm (CallPc.work_eq_zero.1 hz)
        refine .inr (h.retries hs trivial rfl ?_)
        simp only [phase, hh, hm, if_true, if_neg hne]
        decide
      · have hp : s.pc .client = .idle := Classical.byContradiction fun hne => hm (hmutex.2 hne)
        have hs : step s .handStep =
            some ({ s.setMutex true with hand := .idle }.goto .client (.locked r)) := by
          simp only [step, handStep, hh, hm, hp, Bool.false_eq_true, if_false]
        refine .inr (h.retries hs trivial rfl ?_)
        simp only [phase, hh, goto, Function.update_self, CallPc.work, hm, Bool.false_eq_true,
          if_false]
        decide
    | idle =>
      by_cases hp : s.pc .client = .idle
      case neg =>
        obtain ⟨u, hs⟩ := exists_callStep hp
        have hs : step s (.callStep .client) = some u := by simp only [step, hh, hr, hs]
        exact .inr (h.advances hs trivial rfl rfl)
      have hf : s.clientFree = true := clientFree_iff.2 ⟨hh, hr, .inl hp⟩
      cases he : s.events with
      | cons e es =>
        obtain ⟨u, hs⟩ : ∃ u, step s .deliver = some u := by
          cases e with
          | busy r | write r => exact ⟨_, by simp only [step, hf, he, if_true]; rfl⟩
        exact .inr (h.advances hs trivial rfl rfl)
      | nil =>
        cases hb : s.client.busyReq with
        | none => exact .inl ⟨fun t => by cases t with | client => exact hp | user n => exact hu n,
            hh, hr, he, hb⟩
        | some r =>
          have ht : s.client.timer = true := h.timed (hb ▸ rfl)
          have hm : ¬s.client.mutex = true := fun hm => hmutex.1 hm hp
          have hs : step s .timeout = some { s with
              client := { s.client with timer := false, busyReq := none }
              hand := .tryLock r.resend } := by
            simp only [step, hf, ht, hb, Bool.and_self, if_true]
          refine .inr (h.retries hs trivial rfl ?_)
          simp only [phase, hh, hp, CallPc.work, hm, Bool.false_eq_true, if_true, if_false]
          decide

theorem Act.Below.mono {a : Act} (h : a.Below N) (hle : N ≤ M) : a.Below M := by
  cases a with
  | call t | callStep t =>
    cases t with
    | client => trivial
    | user n => exact Nat.lt_of_lt_of_le h hle
  | handStep | deliver | timeout | readyRead | readDone => trivial

theorem exists_below (acts : List Act) : ∃ N, ∀ a ∈ acts, a.Below N := by
  induction acts with
  | nil => exact ⟨0, nofun⟩
  | cons a acts ih =>
    obtain ⟨N, hN⟩ := ih
    obtain ⟨M, hM⟩ : ∃ M, a.Below M := by
      cases a with
      | call t | callStep t =>
        cases t with
        | client => exact ⟨0, trivial⟩
        | user n => exact ⟨n + 1, Nat.lt_succ_self n⟩
      | handStep | deliver | timeout | readyRead | readDone => exact ⟨0, trivial⟩
    refine ⟨max N M, fun b hb => ?_⟩
    rcases List.mem_cons.1 hb with rfl | hb
    · exact hM.mono (Nat.le_max_right N M)
    · exact (hN b hb).mono (Nat.le_max_left N M)

theorem run_work (hr : Sys.run step init acts = some s) (hN : ∀ a ∈ acts, a.Below N) :
    s.work N + acts.countP Act.isWork ≤ 11 * s.calls := by
  have hinit : init.work N = 0 := by
    have hidle : workBelow init.pc N = 0 := workBelow_idle fun _ => rfl
    rw [work, hidle]
    rfl
  have hrun := (Sys.run_credit (I := fun s => s.answered ≤ s.written.length)
    (G := Act.Below N) (K := Act.isWork) (r := work N) (c := fun s => 11 * s.calls)
    (fun s a u h hN hs => ⟨step_answered h (step_cases hs), step_work h hN (step_cases hs)⟩)
    (Nat.le_refl _) hN hr).2
  have hcalls : init.calls = 0 := rfl
  rw [hinit, hcalls] at hrun
  omega

/-- The steps that lead to rest, one by one. -/
theorem Steady.drain {s : JSONSystem} (h : Steady N s) : ∃ more t,
    more.length ≤ s.left N ∧ (∀ a ∈ more, a.isCall = false) ∧ Sys.run step s more = some t ∧
      t.Rest ∧ Steady N t := by
  have hadv : ∀ s, Steady N s → s.Rest ∨ ∃ as t, as.length ≤ 1 ∧ (∀ a ∈ as, a.isCall = false) ∧
      Sys.run step s as = some t ∧ Steady N t ∧ t.left N < s.left N := by
    intro s h
    refine h.rest_or_advances.imp_right ?_
    rintro ⟨a, u, hc, hN, hs, hlt⟩
    exact ⟨[a], u, Nat.le_refl 1, fun b hb => List.mem_singleton.1 hb ▸ hc,
      Sys.run_cons_eq_some.2 ⟨u, hs, rfl⟩, step_steady h hN (step_cases hs), hlt⟩
  obtain ⟨more, t, hlen, hmore, hr, hrest, ht⟩ := Sys.exists_rest hadv h
  exact ⟨more, t, Nat.one_mul (s.left N) ▸ hlen, hmore, hr, hrest, ht⟩

theorem run_steady (hr : Sys.run step init acts = some s)
    (hacts : ∀ a ∈ acts, a.Below N) : Steady N s :=
  Sys.run_induction (fun _ _ _ h ha hs => step_steady h ha (step_cases hs)) (init_steady N)
    (Sys.along_of_forall hacts init) hr

/-- At rest every request is written or was dropped. -/
theorem Accounted.rest {s : JSONSystem} (h : s.Accounted) (hrest : s.Rest) (hi : i < s.calls) :
    (∃ r ∈ s.written, r.id = i) ∨ ∃ d ∈ s.discarded, d.request.id = i := by
  rcases (h.all i).1 hi with hm | ⟨n, hn⟩
  · rw [places, hrest.events, hrest.hand, hrest.busyReq, hrest.pc] at hm
    simp only [HandPc.request, CallPc.pending, Option.toList_none, List.map_nil, List.append_nil,
      List.mem_append, List.mem_map] at hm
    exact hm
  · rw [carried, hrest.pc] at hn
    cases hn

/-- The calls made so far lead to so much work and no more, in every run. The client can always come
to rest without another call, and leaves no request behind there. -/
theorem calls_come_to_rest (hr : Sys.run step init acts = some s) :
    acts.countP Act.isWork ≤ 11 * s.calls ∧
      ∃ more t, (∀ a ∈ more, a.isCall = false) ∧ more.length ≤ 44 * s.calls + 3 ∧
        Sys.run step s more = some t ∧ t.Rest ∧ t.client.mutex = false ∧
        ∀ i < s.calls, (∃ r ∈ t.written, r.id = i) ∨ ∃ d ∈ t.discarded, d.request.id = i := by
  obtain ⟨N, hN⟩ := exists_below acts
  have hwork := run_work hr hN
  refine ⟨Nat.le_trans (Nat.le_add_left ..) hwork, ?_⟩
  have hs := run_steady hr hN
  obtain ⟨more, t, hlen, hmore, hrun, hrest, ht⟩ := hs.drain
  have hphase := phase_le s
  rw [left] at hlen
  have hmutex : t.client.mutex = false := by
    rw [← Bool.not_eq_true, ht.mutex fun n => hrest.pc _]
    exact fun hne => hne (hrest.pc _)
  have hall : t.Accounted := Sys.run_invariant (I := Accounted)
    (fun _ _ _ h hs => step_accounted h (step_cases hs)) init_accounted
    (Sys.run_append_eq_some.2 ⟨s, hr, hrun⟩)
  have hcalls : s.calls ≤ t.calls := Sys.run_invariant (I := fun u => s.calls ≤ u.calls)
    (fun _ _ _ h hs => Nat.le_trans h (step_calls (step_cases hs))) (Nat.le_refl _) hrun
  exact ⟨more, t, hmore, by omega, hrun, hrest, hmutex,
    fun i hi => hall.rest hrest (Nat.lt_of_lt_of_le hi hcalls)⟩

/-- A call that has the mutex has not sent its request, and another one has found it busy. -/
theorem calls_come_to_rest_two : ∃ s, Sys.run step init [.call (.user 0) "GET" .null,
      .call (.user 1) "SET" (.bool true), .callStep (.user 1), .callStep (.user 0)] = some s ∧
    s.calls = 2 ∧ s.written = [] ∧ ∃ more t, more.length ≤ 91 ∧ Sys.run step s more = some t ∧
      t.Rest ∧ t.client.mutex = false ∧
      ∀ i < 2, (∃ r ∈ t.written, r.id = i) ∨ ∃ d ∈ t.discarded, d.request.id = i := by
  obtain ⟨s, hr, hc, hw⟩ : ∃ s, Sys.run step init [.call (.user 0) "GET" .null,
      .call (.user 1) "SET" (.bool true), .callStep (.user 1), .callStep (.user 0)] = some s ∧
      s.calls = 2 ∧ s.written = [] := ⟨_, rfl, rfl, rfl⟩
  obtain ⟨more, t, _, hlen, hrun, hrest, hm, hall⟩ := (calls_come_to_rest hr).2
  rw [hc] at hlen hall
  exact ⟨s, hr, hc, hw, more, t, hlen, hrun, hrest, hm, hall⟩

end JSONSystem
end Avs4000
