import Avs4000.JSONBusy

namespace Avs4000
set_option autoImplicit true

/-- The request is of the same thread, and of an earlier call. -/
def Request.Older (y x : Request) : Prop := y.thread = x.thread ∧ y.id < x.id

/-- A later request of the thread sets a parameter the request sets. -/
def Request.Stale (y x : Request) : Prop := y.Older x ∧ ∃ g p, y.Sets g p ∧ x.Sets g p

/-- The request of a call that has cleared the slot and has yet to send it. -/
def CallPc.committed : CallPc → Option Request
  | .slotCleared r | .rspCleared r => some r
  | _ => none

theorem CallPc.pending_of_committed {x : CallPc} (h : x.committed = some r) :
    x.pending = some r := by
  cases x with
  | slotCleared | rspCleared => exact h
  | idle | busy | locked | waiting | gotRsp | unlocking => cases h

namespace JSONSystem

/-- No request is written after one that made it stale. -/
def InOrder (s : JSONSystem) : Prop := s.written.Pairwise fun x y => ¬y.Stale x

/-- When a step cannot bring back a stale request. A call that has the mutex clears the slot once
no request its own makes stale is on the way there. -/
def KeepsOrder (s : JSONSystem) : Act → Prop
  | .callStep (.user n) => ∀ r, s.pc (.user n) = .locked r →
      ∀ y, .busy y ∈ s.events ∨ s.hand.request = some y → ¬y.Stale r
  | _ => True

/-- The request is in the slot, or was taken out of it. -/
def Held (s : JSONSystem) (y : Request) : Prop :=
  s.client.busyReq = some y ∨ s.hand.request = some y

/-- The request will be written before what is emitted from now on. -/
def Committed (s : JSONSystem) (x : Request) : Prop :=
  .write x ∈ s.events ∨ ∃ t, (s.pc t).committed = some x

/-- The request was delivered to the client thread, which has yet to write it. -/
def Ahead (s : JSONSystem) (y : Request) : Prop :=
  s.Held y ∨ (s.pc .client).pending = some y

/-- How the requests on their way stand to each other. -/
structure Queued (s : JSONSystem) : Prop where
  events : s.events.Pairwise fun e f => ¬f.request.Older e.request
  thread : ∀ e ∈ s.events, e.request.thread ≠ .client
  ahead : ∀ x, s.Ahead x → ∀ e ∈ s.events, ¬e.request.Older x
  committed : ∀ x, s.Committed x → ∀ y, s.Held y ∨ .busy y ∈ s.events → ¬y.Stale x
  past : ∀ x ∈ s.written, ∀ y, s.Ahead y ∨ (∃ e ∈ s.events, e.request = y) → ¬y.Stale x
  written : s.InOrder

structure OrderInv (s : JSONSystem) : Prop where
  queued : Queued s
  client : ∀ r, s.pc .client ≠ .busy r
  fresh : ∀ y, s.Kept y → y.id < s.calls
  own : ∀ n r, (s.pc (.user n)).pending = some r → r.thread = .user n ∧ r.id < s.calls ∧
    ∀ y, s.Kept y → y.thread = r.thread → y.id ≤ r.id

theorem Held.kept {s : JSONSystem} (h : s.Held y) : s.Kept y := h.elim .slot .hand

theorem Older.not_of_le {x y : Request} (h : x.thread = y.thread → x.id ≤ y.id) : ¬y.Older x :=
  fun ⟨ht, hlt⟩ => absurd (h ht.symm) (Nat.not_le_of_lt hlt)

theorem Stale.not_of_older {x y : Request} (h : ¬y.Older x) : ¬y.Stale x := fun hs => h hs.1

theorem pending_user {s u : JSONSystem} {x : CallPc} (hp : u.pc = Function.update s.pc t x)
    (h : (u.pc (.user n)).pending = some r) :
    (s.pc (.user n)).pending = some r ∨ t = .user n ∧ x.pending = some r := by
  by_cases ht : Thread.user n = t
  · subst ht
    rw [hp, Function.update_self] at h
    exact .inr ⟨rfl, h⟩
  · rw [hp, Function.update_of_ne ht] at h
    exact .inl h

theorem pending_move {s u : JSONSystem} {x y : CallPc} (hu : u.pc = Function.update s.pc t x)
    (hp : s.pc t = y) (hx : x.pending = y.pending) (v : Thread) :
    (s.pc v).pending = (u.pc v).pending :=
  hu ▸ (update_same CallPc.pending (hx.trans (congrArg _ hp).symm) v).symm

theorem pc_client {s u : JSONSystem} (hu : u.pc = Function.update s.pc (.user n) x) :
    u.pc .client = s.pc .client := by
  have hne : Thread.client ≠ .user n := nofun
  rw [hu, Function.update_of_ne hne]

theorem kept_emit {s u : JSONSystem} (h : u.Kept r) (hw : u.written = s.written)
    (he : u.events = s.events ++ [e]) (hb : u.client.busyReq = s.client.busyReq)
    (hh : u.hand = s.hand) (hp : (u.pc .client).pending = (s.pc .client).pending) :
    s.Kept r ∨ e.request = r := by
  cases h with
  | written h => exact .inl (.written (hw ▸ h))
  | queued e' h hr =>
    rw [he] at h
    rcases List.mem_append.1 h with h | h
    · exact .inl (.queued e' h hr)
    · rw [List.mem_singleton.1 h] at hr
      exact .inr hr
  | slot h => exact .inl (.slot (hb.symm.trans h))
  | hand h => exact .inl (.hand (hh ▸ h))
  | sending h => exact .inl (.sending (hp.symm.trans h))

theorem step_kept_from (hs : Step s a u) (h : u.Kept y) : s.Kept y ∨
    (∃ n, (s.pc (.user n)).pending = some y ∧ (u.pc (.user n)).pending = none) ∨
    y.thread = .client ∧ y.id = s.calls ∧ u.calls = s.calls + 1 := by
  cases hs with
  | callClient cmd arg hf =>
    cases h with
    | written h => exact .inl (.written h)
    | queued e h he => exact .inl (.queued e h he)
    | slot h => exact .inl (.slot h)
    | hand h =>
      cases h
      exact .inr (.inr ⟨rfl, rfl, rfl⟩)
    | sending h => exact .inl (.sending h)
  | callBusy n cmd arg hp hm | callLock n cmd arg hp hm =>
    exact .inl (h.same rfl rfl rfl rfl (congrArg CallPc.pending (pc_client rfl)).symm)
  | emitBusy t r ht hp =>
    cases t with
    | client =>
      left
      cases h with
      | written h => exact .written h
      | queued e h he => exact .queued e h he
      | slot h => exact .sending ((congrArg CallPc.pending hp).trans h)
      | hand h => exact .hand h
      | sending h => exact nomatch h
    | user n =>
      refine (kept_emit (s := s) h rfl rfl rfl rfl rfl).imp_right fun he => .inl ⟨n, ?_, ?_⟩
      · exact (congrArg CallPc.pending hp).trans (congrArg some he)
      · exact congrArg CallPc.pending (Function.update_self (Thread.user n) .idle s.pc)
  | clearBusyReq t r ht hp =>
    left
    cases h with
    | written h => exact .written h
    | queued e h he => exact .queued e h he
    | slot h => exact nomatch h
    | hand h => exact .hand h
    | sending h => exact .sending (.trans (pending_move rfl hp (by rfl) _) h)
  | clearRsp t r ht hp => exact .inl (h.same rfl rfl rfl rfl (pending_move rfl hp (by rfl) _))
  | sendREQ t r ht hp =>
    cases t with
    | client =>
      left
      cases h with
      | written h =>
        rcases List.mem_append.1 h with h | h
        · exact .written h
        · rw [List.mem_singleton.1 h]
          exact .sending (congrArg CallPc.pending hp)
      | queued e h he => exact .queued e h he
      | slot h => exact .slot h
      | hand h => exact .hand h
      | sending h => exact nomatch h
    | user n =>
      refine (kept_emit (s := s) h rfl rfl rfl rfl rfl).imp_right fun he => .inl ⟨n, ?_, ?_⟩
      · exact (congrArg CallPc.pending hp).trans (congrArg some he)
      · exact congrArg CallPc.pending (Function.update_self (Thread.user n) (.waiting r) s.pc)
  | gotRsp t r ht hp a hr => exact .inl (h.same rfl rfl rfl rfl (pending_move rfl hp (by rfl) _))
  | noResponse t r ht hp hr => exact .inl (h.same rfl rfl rfl rfl (pending_move rfl hp (by rfl) _))
  | replyBool t r ht hp hb => exact .inl (h.same rfl rfl rfl rfl (pending_move rfl hp (by rfl) _))
  | reply t r ht hp hb => exact .inl (h.same rfl rfl rfl rfl (pending_move rfl hp (by rfl) _))
  | unlock t r o ht hp => exact .inl (h.same rfl rfl rfl rfl (pending_move rfl hp (by rfl) _))
  | handBusy r hh hm =>
    exact .inl (h.moveHand rfl rfl rfl rfl fun h => .hand ((congrArg HandPc.request hh).trans h))
  | handLock r hh hm hp =>
    left
    cases h with
    | written h => exact .written h
    | queued e h he => exact .queued e h he
    | slot h => exact .slot h
    | hand h => exact nomatch h
    | sending h => exact .hand ((congrArg HandPc.request hh).trans h)
  | handEmit r hh =>
    left
    cases h with
    | written h => exact .written h
    | queued e h he => exact .queued e h he
    | slot h => exact .hand ((congrArg HandPc.request hh).trans h)
    | hand h => exact nomatch h
    | sending h => exact .sending h
  | deliverBusy r es hf he =>
    left
    cases h with
    | written h => exact .written h
    | queued e h hr => exact .queued e (he ▸ List.mem_cons_of_mem _ h) hr
    | slot h => exact .queued (.busy r) (he ▸ List.mem_cons_self) (Option.some.inj h)
    | hand h => exact .hand h
    | sending h => exact .sending h
  | deliverWrite r es hf he =>
    left
    cases h with
    | written h =>
      rcases List.mem_append.1 h with h | h
      · exact .written h
      · exact .queued (.write r) (he ▸ List.mem_cons_self) (List.mem_singleton.1 h).symm
    | queued e h hr => exact .queued e (he ▸ List.mem_cons_of_mem _ h) hr
    | slot h => exact .slot h
    | hand h => exact .hand h
    | sending h => exact .sending h
  | timeoutSome r hf hr =>
    left
    cases h with
    | written h => exact .written h
    | queued e h he => exact .queued e h he
    | slot h => exact nomatch h
    | hand h => exact .slot (hr.trans h)
    | sending h => exact .sending h
  | timeoutNone | readyRead | readNull | readValue => exact .inl (h.same rfl rfl rfl rfl rfl)

/-- A call that has yet to send its request had so before, or has just been made. -/
theorem step_pending (hs : Step s a u) (h : (u.pc (.user n)).pending = some r) :
    (s.pc (.user n)).pending = some r ∨
      r.thread = .user n ∧ r.id = s.calls ∧ u.calls = s.calls + 1 ∧ ∀ y, u.Kept y → s.Kept y := by
  cases hs with
  | callClient | handBusy | handEmit | deliverBusy | deliverWrite | timeoutNone | timeoutSome
  | readyRead | readNull | readValue => exact .inl h
  | callBusy m cmd arg hp hm | callLock m cmd arg hp hm =>
    refine (pending_user rfl h).imp_right fun ⟨ht, hx⟩ => ?_
    cases ht
    cases hx
    exact ⟨rfl, rfl, rfl, fun y hy =>
      hy.same rfl rfl rfl rfl (congrArg CallPc.pending (pc_client rfl)).symm⟩
  | emitBusy t r' ht hp =>
    have hu := congrArg (Function.update · t .idle) (emitBusy_pc s t r')
    exact .inl ((pending_user hu h).resolve_right fun hx => nomatch hx.2)
  | sendREQ t r' ht hp =>
    have hu := congrArg (Function.update · t (.waiting r')) (sendREQ_pc s t r')
    exact .inl ((pending_user hu h).resolve_right fun hx => nomatch hx.2)
  | clearBusyReq t r' ht hp => exact .inl (.trans (pending_move rfl hp (by rfl) _) h)
  | clearRsp t r' ht hp => exact .inl (.trans (pending_move rfl hp (by rfl) _) h)
  | gotRsp t r' ht hp a hr => exact .inl (.trans (pending_move rfl hp (by rfl) _) h)
  | noResponse t r' ht hp hr => exact .inl (.trans (pending_move rfl hp (by rfl) _) h)
  | replyBool t r' ht hp hb => exact .inl (.trans (pending_move rfl hp (by rfl) _) h)
  | reply t r' ht hp hb => exact .inl (.trans (pending_move rfl hp (by rfl) _) h)
  | unlock t r' o ht hp => exact .inl (.trans (pending_move rfl hp (by rfl) _) h)
  | handLock r' hh hm hp => exact .inl ((pending_user rfl h).resolve_right fun hx => nomatch hx.1)

theorem step_calls (hs : Step s a u) : s.calls ≤ u.calls := by
  cases hs with
  | callClient | callBusy | callLock => exact Nat.le_succ _
  | emitBusy t | sendREQ t =>
    cases t with
    | client | user n => exact Nat.le_refl _
  | clearBusyReq | clearRsp | gotRsp | noResponse | replyBool | reply | unlock | handBusy
  | handLock | handEmit | deliverBusy | deliverWrite | timeoutNone | timeoutSome | readyRead
  | readNull | readValue => exact Nat.le_refl _

theorem committed_move {s u : JSONSystem} {x : CallPc} (hu : u.pc = Function.update s.pc t x)
    (hx : x.committed = none ∨ x.committed = (s.pc t).committed) (v : Thread)
    (h : (u.pc v).committed = some r) : (s.pc v).committed = some r := by
  by_cases hv : v = t
  · subst hv
    rw [hu, Function.update_self] at h
    exact hx.elim (fun hx => nomatch hx.symm.trans h) fun hx => hx.symm.trans h
  · rwa [hu, Function.update_of_ne hv] at h

theorem Queued.mono {s u : JSONSystem} (h : Queued s) (he : u.events = s.events)
    (hw : u.written = s.written) (hh : ∀ y, u.Held y → s.Held y) (ha : ∀ y, u.Ahead y → s.Ahead y)
    (hc : ∀ t r, (u.pc t).committed = some r → (s.pc t).committed = some r) : Queued u where
  events := he ▸ h.events
  thread := he ▸ h.thread
  ahead x hx e hm := h.ahead x (ha x hx) e (he ▸ hm)
  committed x hx y hy :=
    h.committed x (hx.imp (he ▸ ·) fun ⟨t, ht⟩ => ⟨t, hc t x ht⟩) y (hy.imp (hh y) (he ▸ ·))
  past x hx y hy := h.past x (hw ▸ hx) y (hy.imp (ha y) fun ⟨e, hm, hr⟩ => ⟨e, he ▸ hm, hr⟩)
  written := by
    rw [InOrder, hw]
    exact h.written

theorem Queued.move {s u : JSONSystem} {x y : CallPc} (h : Queued s) (he : u.events = s.events)
    (hw : u.written = s.written) (hb : u.client.busyReq = s.client.busyReq) (hh : u.hand = s.hand)
    (hu : u.pc = Function.update s.pc t x) (hp : s.pc t = y) (hx : x.pending = y.pending)
    (hc : x.committed = none ∨ x.committed = y.committed) : Queued u := by
  have hheld (y : Request) (hy : u.Held y) : s.Held y :=
    hy.imp hb.symm.trans fun hy => (congrArg HandPc.request hh).symm.trans hy
  refine h.mono he hw hheld (fun z hz => hz.imp (hheld z) fun hz => ?_)
    fun v _ => committed_move hu (hp ▸ hc) v
  exact (pending_move hu hp hx _).trans hz

theorem OrderInv.emit (h : OrderInv s) (hp : (s.pc (.user n)).pending = some r)
    (he : e.request = r) :
    (s.events ++ [e]).Pairwise (fun e f => ¬f.request.Older e.request) ∧
      (∀ f ∈ s.events ++ [e], f.request.thread ≠ .client) ∧
      (∀ x, s.Ahead x → ∀ f ∈ s.events ++ [e], ¬f.request.Older x) ∧
      (∀ x ∈ s.written, ∀ y, s.Ahead y ∨ (∃ f ∈ s.events ++ [e], f.request = y) → ¬y.Stale x) := by
  obtain ⟨ht, _, hown⟩ := h.own n r hp
  have hlast (x : Request) (hx : s.Kept x) : ¬r.Older x := Older.not_of_le (hown x hx)
  refine ⟨?_, fun f hf => ?_, fun x hx f hf => ?_, fun x hx y hy => ?_⟩
  · refine List.pairwise_append.2 ⟨h.queued.events, List.pairwise_singleton .., fun f hf g hg => ?_⟩
    rw [List.mem_singleton.1 hg, he]
    exact hlast _ (.queued f hf rfl)
  · rcases List.mem_append.1 hf with hf | hf
    · exact h.queued.thread f hf
    · rw [List.mem_singleton.1 hf, he, ht]
      exact nofun
  · rcases List.mem_append.1 hf with hf | hf
    · exact h.queued.ahead x hx f hf
    · rw [List.mem_singleton.1 hf, he]
      exact hlast x (hx.elim Held.kept .sending)
  · rcases hy with hy | ⟨f, hf, hr⟩
    · exact h.queued.past x hx y (.inl hy)
    · rcases List.mem_append.1 hf with hf | hf
      · exact h.queued.past x hx y (.inr ⟨f, hf, hr⟩)
      · rw [← hr, List.mem_singleton.1 hf, he]
        exact Stale.not_of_older (hlast x (.written hx))

theorem OrderInv.not_stale (h : OrderInv s) (hp : s.pc (.user n) = .busy r) (hx : s.Committed x) :
    ¬r.Stale x := by
  obtain ⟨ht, _, hown⟩ := h.own n r (congrArg CallPc.pending hp)
  apply Stale.not_of_older
  rcases hx with hx | ⟨t, hx⟩
  · exact Older.not_of_le (hown x (.queued (.write x) hx rfl))
  · cases t with
    | client => exact Older.not_of_le (hown x (.sending (CallPc.pending_of_committed hx)))
    | user m =>
      obtain ⟨hm, _, _⟩ := h.own m x (CallPc.pending_of_committed hx)
      rintro ⟨hthread, _⟩
      rw [ht, hm] at hthread
      cases hthread
      rw [hp] at hx
      cases hx

theorem OrderInv.committed_lt (h : OrderInv s) (hx : s.Committed x) : x.id < s.calls := by
  rcases hx with hx | ⟨t, hx⟩
  · exact h.fresh x (.queued (.write x) hx rfl)
  · cases t with
    | client => exact h.fresh x (.sending (CallPc.pending_of_committed hx))
    | user m => exact (h.own m x (CallPc.pending_of_committed hx)).2.1

theorem queued_callClient (h : OrderInv s) (cmd : String) (arg : QVariant) :
    Queued { s with hand := .tryLock (s.newRequest .client cmd arg), calls := s.calls + 1 } := by
  have hq := h.queued
  have hnew (x : Request) (hx : x.id < s.calls) : ¬(s.newRequest .client cmd arg).Stale x :=
    Stale.not_of_older (Older.not_of_le fun _ => Nat.le_of_lt hx)
  refine ⟨hq.events, hq.thread, fun x hx e he => ?_, fun x hx y hy => ?_, fun x hx y hy => ?_,
    hq.written⟩
  · rcases hx with (hx | hx) | hx
    · exact hq.ahead x (.inl (.inl hx)) e he
    · cases hx
      exact fun ho => hq.thread e he ho.1
    · exact hq.ahead x (.inr hx) e he
  · rcases hy with (hy | hy) | hy
    · exact hq.committed x hx y (.inl (.inl hy))
    · cases hy
      exact hnew x (h.committed_lt hx)
    · exact hq.committed x hx y (.inr hy)
  · rcases hy with ((hy | hy) | hy) | hy
    · exact hq.past x hx y (.inl (.inl (.inl hy)))
    · cases hy
      exact hnew x (h.fresh x (.written hx))
    · exact hq.past x hx y (.inl (.inr hy))
    · exact hq.past x hx y (.inr hy)

theorem queued_emitBusy (h : OrderInv s) (hp : s.pc (.user n) = .busy r) :
    Queued (((s.emitBusy (.user n) r).ret r .busy).goto (.user n) .idle) := by
  have hq := h.queued
  have hpend : (s.pc (.user n)).pending = some r := congrArg CallPc.pending hp
  obtain ⟨he, hthread, hahead, hpast⟩ := h.emit (e := .busy r) hpend rfl
  refine ⟨he, hthread, hahead, fun x hx y hy => ?_, hpast, hq.written⟩
  have hx' : s.Committed x := by
    refine hx.imp (fun hx => ?_) fun ⟨v, hv⟩ => ⟨v, committed_move rfl (.inl rfl) v hv⟩
    exact (List.mem_append.1 hx).resolve_right fun hx => nomatch List.mem_singleton.1 hx
  rcases hy with hy | hy
  · exact hq.committed x hx' y (.inl hy)
  · rcases List.mem_append.1 hy with hy | hy
    · exact hq.committed x hx' y (.inr hy)
    · cases List.mem_singleton.1 hy
      exact h.not_stale hp hx'

theorem queued_clearBusyReq (hq : Queued s) (hk : KeepsOrder s (.callStep t)) (ht : s.CanStep t)
    (hp : s.pc t = .locked r) : Queued ((s.clearBusyReq r).goto t (.slotCleared r)) := by
  have hheld (y : Request) (hy : ((s.clearBusyReq r).goto t (.slotCleared r)).Held y) :
      s.hand.request = some y := hy.resolve_left nofun
  have hpend : ((s.pc .client).pending) =
      (((s.clearBusyReq r).goto t (.slotCleared r)).pc .client).pending :=
    pending_move rfl hp (by rfl) _
  have hahead (y : Request) (hy : ((s.clearBusyReq r).goto t (.slotCleared r)).Ahead y) :
      s.Ahead y := hy.imp (fun hy => .inr (hheld y hy)) hpend.trans
  refine ⟨hq.events, hq.thread, fun x hx => hq.ahead x (hahead x hx), fun x hx y hy => ?_,
    fun x hx y hy => hq.past x hx y (hy.imp_left (hahead y)), hq.written⟩
  rcases hx with hx | ⟨v, hv⟩
  · exact hq.committed x (.inl hx) y (hy.imp_left fun hy => .inr (hheld y hy))
  · by_cases he : v = t
    · subst he
      change (Function.update s.pc v (.slotCleared r) v).committed = some x at hv
      rw [Function.update_self] at hv
      cases hv
      cases v with
      | client =>
        rcases hy with hy | hy
        · exact nomatch (congrArg HandPc.request (ht rfl).1).symm.trans (hheld y hy)
        · exact Stale.not_of_older (hq.ahead r (.inr (congrArg CallPc.pending hp)) _ hy)
      | user n => exact hk r hp y (hy.symm.imp_right (hheld y))
    · have hv' : (s.pc v).committed = some x :=
        (congrArg CallPc.committed (Function.update_of_ne he ..)).symm.trans hv
      exact hq.committed x (.inr ⟨v, hv'⟩) y (hy.imp_left fun hy => .inr (hheld y hy))

theorem queued_sendREQ_client (hq : Queued s) (hp : s.pc .client = .rspCleared r) :
    Queued ((s.sendREQ .client r).goto .client (.waiting r)) := by
  have hcomm : s.Committed r := .inr ⟨.client, congrArg CallPc.committed hp⟩
  have hpend : (s.pc .client).pending = some r := congrArg CallPc.pending hp
  refine ⟨hq.events, hq.thread, fun x hx => ?_, fun x hx y hy => ?_, fun x hx y hy => ?_, ?_⟩
  · exact hq.ahead x (.inl (hx.resolve_right nofun))
  · have hx' : s.Committed x :=
      hx.imp_right fun ⟨v, hv⟩ => ⟨v, committed_move rfl (.inl rfl) v hv⟩
    exact hq.committed x hx' y hy
  · have hy' := hy.imp_left fun hy => Or.resolve_right hy nofun
    rcases List.mem_append.1 hx with hx | hx
    · exact hq.past x hx y (hy'.imp_left .inl)
    · rw [List.mem_singleton.1 hx]
      rcases hy' with hy | ⟨e, he, rfl⟩
      · exact hq.committed r hcomm y (.inl hy)
      · exact Stale.not_of_older (hq.ahead r (.inr hpend) e he)
  · refine List.pairwise_append.2 ⟨hq.written, List.pairwise_singleton .., fun w hw y hy => ?_⟩
    rw [List.mem_singleton.1 hy]
    exact hq.past w hw r (.inl (.inr hpend))

theorem queued_sendREQ_user (h : OrderInv s) (hp : s.pc (.user n) = .rspCleared r) :
    Queued ((s.sendREQ (.user n) r).goto (.user n) (.waiting r)) := by
  have hq := h.queued
  have hpend : (s.pc (.user n)).pending = some r := congrArg CallPc.pending hp
  obtain ⟨he, hthread, hahead, hpast⟩ := h.emit (e := .write r) hpend rfl
  refine ⟨he, hthread, hahead, fun x hx y hy => ?_, hpast, hq.written⟩
  have hx' : s.Committed x := by
    rcases hx with hx | ⟨v, hv⟩
    · rcases List.mem_append.1 hx with hx | hx
      · exact .inl hx
      · cases List.mem_singleton.1 hx
        exact .inr ⟨.user n, congrArg CallPc.committed hp⟩
    · exact .inr ⟨v, committed_move rfl (.inl rfl) v hv⟩
  refine hq.committed x hx' y (hy.imp_right fun hy => ?_)
  exact (List.mem_append.1 hy).resolve_right fun hy => nomatch List.mem_singleton.1 hy

/-- A request that is delivered to the slot replaces what was there. -/
theorem queued_deliverBusy (hq : Queued s) (he : s.events = .busy r :: es) :
    Queued ({ s with events := es }.busyREQ r) := by
  obtain ⟨hhead, htail⟩ := List.pairwise_cons.1 (he ▸ hq.events)
  have hmem : Event.busy r ∈ s.events := he ▸ List.mem_cons_self
  have hsub (e : Event) (h : e ∈ es) : e ∈ s.events := he ▸ List.mem_cons_of_mem _ h
  have hheld (y : Request) (hy : ({ s with events := es }.busyREQ r).Held y) :
      s.Held y ∨ y = r := hy.symm.imp .inr fun hy => (Option.some.inj hy).symm
  refine ⟨htail, fun e h => hq.thread e (hsub e h), fun x hx e h => ?_, fun x hx y hy => ?_,
    fun x hx y hy => ?_, hq.written⟩
  · rcases hx with hx | hx
    · rcases hheld x hx with hx | rfl
      · exact hq.ahead x (.inl hx) e (hsub e h)
      · exact hhead e h
    · exact hq.ahead x (.inr hx) e (hsub e h)
  · refine hq.committed x (hx.imp_left (hsub _)) y ?_
    rcases hy with hy | hy
    · rcases hheld y hy with hy | rfl
      · exact .inl hy
      · exact .inr hmem
    · exact .inr (hsub _ hy)
  · refine hq.past x hx y ?_
    rcases hy with (hy | hy) | ⟨e, h, hr⟩
    · exact (hheld y hy).imp .inl fun hy => ⟨_, hmem, hy.symm⟩
    · exact .inl (.inr hy)
    · exact .inr ⟨e, hsub e h, hr⟩

theorem queued_deliverWrite (hq : Queued s) (hf : s.Free) (he : s.events = .write r :: es) :
    Queued ({ s with events := es }.writeREQ r) := by
  obtain ⟨hhead, htail⟩ := List.pairwise_cons.1 (he ▸ hq.events)
  have hmem : Event.write r ∈ s.events := he ▸ List.mem_cons_self
  have hsub (e : Event) (h : e ∈ es) : e ∈ s.events := he ▸ List.mem_cons_of_mem _ h
  have hnone : (s.pc .client).pending = none := by
    rcases hf.pc with hp | ⟨r', hp⟩ <;> rw [hp] <;> rfl
  refine ⟨htail, fun e h => hq.thread e (hsub e h), fun x hx e h => hq.ahead x hx e (hsub e h),
    fun x hx y hy => hq.committed x (hx.imp_left (hsub _)) y (hy.imp_right (hsub _)),
    fun x hx y hy => ?_, ?_⟩
  · rcases List.mem_append.1 hx with hx | hx
    · exact hq.past x hx y (hy.imp_right fun ⟨e, h, hr⟩ => ⟨e, hsub e h, hr⟩)
    · rw [List.mem_singleton.1 hx]
      rcases hy with (hy | hy) | ⟨e, h, rfl⟩
      · exact hq.committed r (.inl hmem) y (.inl hy)
      · exact nomatch hnone.symm.trans hy
      · exact Stale.not_of_older (hhead e h)
  · refine List.pairwise_append.2 ⟨hq.written, List.pairwise_singleton .., fun w hw y hy => ?_⟩
    rw [List.mem_singleton.1 hy]
    exact hq.past w hw r (.inr ⟨_, hmem, rfl⟩)

theorem step_queued (h : OrderInv s) (hk : KeepsOrder s a) (hs : Step s a u) : Queued u := by
  have hq := h.queued
  cases hs with
  | callClient cmd arg hf => exact queued_callClient h cmd arg
  | callBusy n cmd arg hp hm | callLock n cmd arg hp hm =>
    refine hq.mono rfl rfl (fun _ hy => hy) (fun y hy => hy.imp id fun hy => ?_)
      fun v _ => committed_move rfl (.inl rfl) v
    exact (congrArg CallPc.pending (pc_client rfl)).symm.trans hy
  | emitBusy t r ht hp =>
    cases t with
    | client => exact absurd hp (h.client r)
    | user n => exact queued_emitBusy h hp
  | clearBusyReq t r ht hp => exact queued_clearBusyReq hq hk ht hp
  | clearRsp t r ht hp => exact hq.move rfl rfl rfl rfl rfl hp rfl (.inr rfl)
  | sendREQ t r ht hp =>
    cases t with
    | client => exact queued_sendREQ_client hq hp
    | user n => exact queued_sendREQ_user h hp
  | gotRsp t r ht hp a hr => exact hq.move rfl rfl rfl rfl rfl hp rfl (.inl rfl)
  | noResponse t r ht hp hr => exact hq.move rfl rfl rfl rfl rfl hp rfl (.inl rfl)
  | replyBool t r ht hp hb => exact hq.move rfl rfl rfl rfl rfl hp rfl (.inl rfl)
  | reply t r ht hp hb => exact hq.move rfl rfl rfl rfl rfl hp rfl (.inl rfl)
  | unlock t r o ht hp => exact hq.move rfl rfl rfl rfl rfl hp rfl (.inl rfl)
  | handBusy r hh hm =>
    have hheld (y : Request) (hy : Held { s with hand := .busy r } y) : s.Held y :=
      hy.imp_right (congrArg HandPc.request hh).trans
    exact hq.mono rfl rfl hheld (fun y hy => hy.imp_left (hheld y)) fun _ _ hc => hc
  | handLock r hh hm hp =>
    have hheld (y : Request)
        (hy : Held ({ s.setMutex true with hand := .idle }.goto .client (.locked r)) y) :
        s.Held y := by
      rcases hy with hy | hy
      · exact .inl hy
      · cases hy
    refine hq.mono rfl rfl hheld (fun y hy => ?_) fun v _ => committed_move rfl (.inl rfl) v
    rcases hy with hy | hy
    · exact .inl (hheld y hy)
    · exact .inl (.inr ((congrArg HandPc.request hh).trans hy))
  | handEmit r hh =>
    have hheld (y : Request) (hy : Held { (s.busyREQ r).ret r .busy with hand := .idle } y) :
        s.Held y := by
      rcases hy with hy | hy
      · exact .inr ((congrArg HandPc.request hh).trans hy)
      · cases hy
    exact hq.mono rfl rfl hheld (fun y hy => hy.imp_left (hheld y)) fun _ _ hc => hc
  | deliverBusy r es hf he => exact queued_deliverBusy hq he
  | deliverWrite r es hf he => exact queued_deliverWrite hq hf he
  | timeoutSome r hf hr =>
    have hheld (y : Request) (hy : Held { s with
        client := { s.client with timer := false, busyReq := none }, hand := .tryLock r } y) :
        s.Held y := .inl (hr.trans (hy.resolve_left nofun))
    exact hq.mono rfl rfl hheld (fun y hy => hy.imp_left (hheld y)) fun _ _ hc => hc
  | timeoutNone | readyRead | readNull | readValue =>
    exact hq.mono rfl rfl (fun _ hy => hy) (fun _ hy => hy) fun _ _ hc => hc

theorem client_update {s u : JSONSystem} (h : ∀ r, s.pc .client ≠ .busy r)
    (hu : u.pc = Function.update s.pc t x) (hx : t = .client → ∀ r, x ≠ .busy r) (r : Request) :
    u.pc .client ≠ .busy r := by
  rw [hu]
  exact (Function.forall_update_iff s.pc fun v x => v = .client → ∀ r, x ≠ .busy r).2
    ⟨hx, fun v _ hv => hv ▸ h⟩ .client rfl r

theorem step_client (h : ∀ r, s.pc .client ≠ .busy r) (hs : Step s a u) (r : Request) :
    u.pc .client ≠ .busy r := by
  cases hs with
  | callClient | handBusy | handEmit | deliverBusy | deliverWrite | timeoutNone | timeoutSome
  | readyRead | readNull | readValue => exact h r
  | callBusy | callLock =>
    refine client_update h rfl ?_ r
    exact nofun
  | clearBusyReq | clearRsp | gotRsp | noResponse | replyBool | reply | unlock | handLock =>
    refine client_update h rfl ?_ r
    exact fun _ => nofun
  | emitBusy t | sendREQ t =>
    cases t with
    | client | user n =>
      refine client_update h rfl ?_ r
      exact fun _ => nofun

theorem step_order (h : OrderInv s) (hk : KeepsOrder s a) (hs : Step s a u) : OrderInv u where
  queued := step_queued h hk hs
  client := step_client h.client hs
  fresh y hy := by
    have hle := step_calls hs
    rcases step_kept_from hs hy with hy | ⟨n, hy, _⟩ | ⟨_, hid, hc⟩
    · exact Nat.lt_of_lt_of_le (h.fresh y hy) hle
    · exact Nat.lt_of_lt_of_le (h.own n y hy).2.1 hle
    · omega
  own n r hr := by
    have hle := step_calls hs
    rcases step_pending hs hr with hr' | ⟨ht, hid, hc, hback⟩
    · obtain ⟨ht, hid, hown⟩ := h.own n r hr'
      refine ⟨ht, Nat.lt_of_lt_of_le hid hle, fun y hy hyt => ?_⟩
      rcases step_kept_from hs hy with hy | ⟨m, hy, hn⟩ | ⟨hyc, _⟩
      · exact hown y hy hyt
      · -- a request that left its call is of another thread than one that has not
        have hm := (h.own m y hy).1
        rw [hyt, ht] at hm
        cases hm
        exact nomatch hn.symm.trans hr
      · rw [hyt, ht] at hyc
        cases hyc
    · refine ⟨ht, by omega, fun y hy _ => ?_⟩
      have hlt := h.fresh y (hback y hy)
      omega

theorem init_order : OrderInv init where
  queued := ⟨.nil, nofun, nofun, nofun, nofun, .nil⟩
  client _ := nofun
  fresh y hy := by
    cases hy with
    | written h | queued e h | slot h | hand h | sending h => exact nomatch h
  own := nofun

/-- The last write of a thread to a parameter wins, as long as no call that has the mutex clears
the slot while a request it makes stale is on the way there. -/
theorem last_write_wins (hk : Sys.Along step KeepsOrder init acts)
    (hr : Sys.run step init acts = some s) : s.InOrder :=
  (Sys.run_induction (fun _ _ _ h hk hs => step_order h hk (step_cases hs)) init_order
    hk hr).queued.written

def gainSetDirectly : List Act :=
  [.call (.user 1) "SET" (rxGain (.number true 5 "5")), .callStep (.user 1), .callStep (.user 1),
    .callStep (.user 1), .deliver, .callStep (.user 1), .callStep (.user 1)] ++
  [.call (.user 1) "SET" (rxGain (.number true 9 "9")), .callStep (.user 1), .callStep (.user 1),
    .callStep (.user 1), .deliver]

theorem last_write_wins_directly : ∃ s, Sys.run step init gainSetDirectly = some s ∧
    s.written.length = 2 ∧ s.InOrder := by
  obtain ⟨s, hs⟩ : ∃ s, Sys.run step init gainSetDirectly = some s := ⟨_, rfl⟩
  refine ⟨s, hs, ?_, last_write_wins ?_ hs⟩
  · cases hs
    rfl
  · exact .cons trivial rfl <| .cons (fun _ _ _ hy => nomatch hy) rfl <|
      .cons (fun _ hp => nomatch hp) rfl <| .cons (fun _ hp => nomatch hp) rfl <|
      .cons trivial rfl <| .cons (fun _ hp => nomatch hp) rfl <|
      .cons (fun _ hp => nomatch hp) rfl <| .cons trivial rfl <|
      .cons (fun _ _ _ hy => nomatch hy) rfl <| .cons (fun _ hp => nomatch hp) rfl <|
      .cons (fun _ hp => nomatch hp) rfl <| .cons trivial rfl trivial

/-- One thread sets the gain twice. The first value is queued while another thread has the mutex,
and is delivered when the call for the second has cleared the slot. -/
def gainSetTwice : List Act :=
  [.call (.user 0) "GET" .null, .call (.user 1) "SET" (rxGain (.number true 5 "5")),
    .callStep (.user 1), .callStep (.user 0), .callStep (.user 0), .callStep (.user 0),
    .callStep (.user 0), .callStep (.user 0)] ++
  [.call (.user 1) "SET" (rxGain (.number true 9 "9")), .callStep (.user 1), .callStep (.user 1),
    .callStep (.user 1), .deliver, .deliver, .deliver, .callStep (.user 1), .callStep (.user 1)] ++
  [.timeout, .handStep, .callStep .client, .callStep .client, .callStep .client]

theorem first_gain_written_last : ∃ s, Sys.run step init gainSetTwice = some s ∧ ¬s.InOrder := by
  refine ⟨_, rfl, fun h => ?_⟩
  have hlast := (List.pairwise_cons.1 (List.pairwise_cons.1 h).2).1 _ (List.mem_singleton_self _)
  refine hlast ⟨⟨rfl, Nat.lt_succ_self 1⟩, "rx", "gain", ?_, ?_⟩
  · exact ⟨_, _, _, rfl, .head _, .head _⟩
  · exact ⟨_, _, _, rfl, .head _, .head _⟩

end JSONSystem
end Avs4000
