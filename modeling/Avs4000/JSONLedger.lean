import Avs4000.JSONOrder
import Avs4000.JSONReconnect
import Avs4000.Lib.Ledger

namespace Avs4000
namespace JSONSystem
set_option autoImplicit true

/-- The numbers of the requests that are written, dropped, or on their way in the client thread. -/
def places (s : JSONSystem) : List Nat :=
  s.written.map (·.id) ++ s.discarded.map (·.request.id) ++ s.events.map (·.request.id) ++
    s.client.busyReq.toList.map (·.id) ++ s.hand.request.toList.map (·.id) ++
    (s.pc .client).pending.toList.map (·.id)

/-- The number of the request that the call in a user's thread has yet to send. -/
def carried (s : JSONSystem) (n : Nat) : Option Nat := (s.pc (.user n)).pending.map (·.id)

def Accounted (s : JSONSystem) : Prop := Ledger s.calls s.places s.carried

theorem count_places (s : JSONSystem) (i : Nat) : s.places.count i =
    (s.written.map (·.id)).count i + (s.discarded.map (·.request.id)).count i +
      (s.events.map (·.request.id)).count i + (s.client.busyReq.toList.map (·.id)).count i +
      (s.hand.request.toList.map (·.id)).count i +
      ((s.pc .client).pending.toList.map (·.id)).count i := by
  simp only [places, List.count_append]

theorem carried_client {s u : JSONSystem} (hu : u.pc = Function.update s.pc .client x) :
    u.carried = s.carried := by
  funext n
  have hne : Thread.user n ≠ .client := nofun
  rw [carried, hu, Function.update_of_ne hne, carried]

theorem carried_user {s u : JSONSystem} (hu : u.pc = Function.update s.pc (.user n) x) :
    u.carried = Function.update s.carried n (x.pending.map (·.id)) := by
  funext m
  by_cases hm : m = n
  · subst hm
    rw [carried, hu, Function.update_self, Function.update_self]
  · have hne : Thread.user m ≠ .user n := fun he => hm (Thread.user.inj he)
    rw [carried, hu, Function.update_of_ne hne, Function.update_of_ne hm, carried]

theorem Accounted.issue {s u : JSONSystem} (h : s.Accounted) (hc : u.calls = s.calls + 1)
    (hp : u.pc = s.pc) (hi : ∀ i, u.places.count i = (s.calls :: s.places).count i) :
    u.Accounted := by
  have hcar : u.carried = s.carried := by
    funext n
    rw [carried, hp, carried]
  rw [Accounted, hc, hcar]
  exact Ledger.perm (Ledger.issue h) (List.perm_iff_count.2 hi)

theorem Accounted.move {s u : JSONSystem} (h : s.Accounted) (hc : u.calls = s.calls)
    (hcar : u.carried = s.carried) (hi : ∀ i, u.places.count i = s.places.count i) :
    u.Accounted := by
  rw [Accounted, hc, hcar]
  exact Ledger.perm h (List.perm_iff_count.2 hi)

theorem Accounted.keep {s u : JSONSystem} {x y : CallPc} (h : s.Accounted) (hc : u.calls = s.calls)
    (hu : u.pc = Function.update s.pc t x) (hp : s.pc t = y) (hx : x.pending = y.pending)
    (hi : (s.pc .client).pending = (u.pc .client).pending →
      ∀ i, u.places.count i = s.places.count i) : u.Accounted := by
  have hpending := pending_move hu hp hx
  have hcar : u.carried = s.carried := by
    funext n
    rw [carried, carried, hpending]
  exact h.move hc hcar (hi (hpending .client))

theorem Accounted.begin {s u : JSONSystem} {x : CallPc} (h : s.Accounted)
    (hc : u.calls = s.calls + 1) (hu : u.pc = Function.update s.pc (.user n) x)
    (hp : s.pc (.user n) = .idle) (hx : x.pending = some r) (hr : r.id = s.calls)
    (hi : (u.pc .client).pending = (s.pc .client).pending →
      ∀ i, u.places.count i = s.places.count i) : u.Accounted := by
  have hidle : s.carried n = none := by
    rw [carried, hp]
    rfl
  have hcar : u.carried = Function.update s.carried n (some s.calls) := by
    rw [carried_user hu, hx, Option.map_some, hr]
  have hclient := congrArg CallPc.pending (pc_client hu)
  rw [Accounted, hc, hcar]
  exact Ledger.perm (Ledger.issueTo h hidle) (List.perm_iff_count.2 (hi hclient))

theorem Accounted.emit {s u : JSONSystem} {x : CallPc} (h : s.Accounted) (hc : u.calls = s.calls)
    (hu : u.pc = Function.update s.pc (.user n) x) (hp : (s.pc (.user n)).pending = some r)
    (hx : x.pending = none)
    (hi : (u.pc .client).pending = (s.pc .client).pending →
      ∀ i, u.places.count i = (r.id :: s.places).count i) : u.Accounted := by
  have hheld : s.carried n = some r.id := by
    rw [carried, hp, Option.map_some]
  have hcar : u.carried = Function.update s.carried n none := by
    rw [carried_user hu, hx, Option.map_none]
  have hclient := congrArg CallPc.pending (pc_client hu)
  rw [Accounted, hc, hcar]
  exact Ledger.perm (Ledger.deposit h hheld) (List.perm_iff_count.2 (hi hclient))

theorem places_goto_user (s : JSONSystem) (n : Nat) (x : CallPc) :
    (s.goto (.user n) x).places = s.places := by
  have hclient : (s.goto (.user n) x).pc .client = s.pc .client := pc_client rfl
  rw [places, hclient]
  rfl

theorem count_goto_client (s : JSONSystem) (x : CallPc) (i : Nat) :
    (s.goto .client x).places.count i + ((s.pc .client).pending.toList.map (·.id)).count i =
      s.places.count i + (x.pending.toList.map (·.id)).count i := by
  have hpc : (s.goto .client x).pc = Function.update s.pc .client x := rfl
  rw [count_places, hpc, Function.update_self, count_places]
  exact Nat.add_right_comm ..

theorem count_keep {s u : JSONSystem} (hw : u.written = s.written)
    (hd : u.discarded = s.discarded) (he : u.events = s.events)
    (hb : u.client.busyReq = s.client.busyReq) (hh : u.hand = s.hand)
    (hp : (s.pc .client).pending = (u.pc .client).pending) (i : Nat) :
    u.places.count i = s.places.count i := by
  rw [places, hw, hd, he, hb, hh, ← hp, places]

theorem count_hand (s : JSONSystem) (x : HandPc) (i : Nat) :
    (places { s with hand := x }).count i + (s.hand.request.toList.map (·.id)).count i =
      s.places.count i + (x.request.toList.map (·.id)).count i := by
  rw [count_places, count_places]
  dsimp only
  omega

theorem count_events (s : JSONSystem) (es : List Event) (i : Nat) :
    (places { s with events := es }).count i + (s.events.map (·.request.id)).count i =
      s.places.count i + (es.map (·.request.id)).count i := by
  rw [count_places, count_places]
  dsimp only
  omega

theorem count_discarded (s : JSONSystem) (cause : Cause) (i : Nat) :
    ((s.discarded ++ s.client.busyReq.toList.map (Discard.mk · cause)).map (·.request.id)).count i =
      (s.discarded.map (·.request.id)).count i +
        (s.client.busyReq.toList.map (·.id)).count i := by
  rw [List.map_append, List.count_append, List.map_map]
  rfl

theorem count_busyREQ (s : JSONSystem) (r : Request) (i : Nat) :
    (s.busyREQ r).places.count i = s.places.count i + [r.id].count i := by
  have hd := count_discarded s (.overwritten r) i
  rw [count_places, count_places]
  simp only [busyREQ, hd, Option.toList_some, List.map_singleton]
  omega

theorem count_clearBusyReq (s : JSONSystem) (r : Request) (i : Nat) :
    (s.clearBusyReq r).places.count i = s.places.count i := by
  have hd := count_discarded s (.cleared r) i
  rw [count_places, count_places]
  simp only [clearBusyReq, hd, Option.toList_none, List.map_nil, List.count_nil]
  omega

theorem count_writeREQ (s : JSONSystem) (r : Request) (i : Nat) :
    (s.writeREQ r).places.count i = s.places.count i + [r.id].count i := by
  rw [count_places, count_places]
  simp only [writeREQ, JSONSystem.clearRsp, List.map_append, List.count_append, List.map_singleton]
  omega

theorem count_queue (s : JSONSystem) (e : Event) (i : Nat) :
    (places { s with events := s.events ++ [e] }).count i =
      s.places.count i + [e.request.id].count i := by
  have h := count_events s (s.events ++ [e]) i
  rw [List.map_append, List.count_append, List.map_singleton] at h
  omega

theorem step_accounted (h : s.Accounted) (hs : Step s a u) : u.Accounted := by
  cases hs with
  | callClient cmd arg hf =>
    refine h.issue rfl rfl fun i => ?_
    have hand := count_hand s (.tryLock (s.newRequest .client cmd arg)) i
    rw [hf.hand] at hand
    rw [List.count_cons, ← List.count_singleton]
    exact hand
  | callBusy n cmd arg hp hm =>
    exact h.begin rfl rfl hp rfl rfl fun hc => count_keep rfl rfl rfl rfl rfl hc.symm
  | callLock n cmd arg hp hm =>
    exact h.begin rfl rfl hp rfl rfl fun hc => count_keep rfl rfl rfl rfl rfl hc.symm
  | emitBusy t r ht hp =>
    cases t with
    | client =>
      refine h.move rfl (carried_client rfl) fun i => ?_
      have hbusy : ((s.busyREQ r).ret r .busy).places.count i = _ := count_busyREQ s r i
      have hgoto := count_goto_client ((s.busyREQ r).ret r .busy) .idle i
      have hpending : (((s.busyREQ r).ret r .busy).pc .client).pending = some r :=
        congrArg CallPc.pending hp
      rw [hpending, hbusy] at hgoto
      exact Nat.add_right_cancel hgoto
    | user n =>
      refine h.emit rfl rfl (congrArg CallPc.pending hp) rfl fun _ i => ?_
      rw [List.count_cons, ← List.count_singleton]
      exact (congrArg (List.count i) (places_goto_user ..)).trans (count_queue s (.busy r) i)
  | clearBusyReq t r ht hp =>
    refine h.keep rfl rfl hp rfl fun hclient i => ?_
    rw [← count_clearBusyReq s r, count_places, ← hclient, count_places]
    rfl
  | clearRsp t r ht hp => exact h.keep rfl rfl hp rfl (count_keep rfl rfl rfl rfl rfl)
  | sendREQ t r ht hp =>
    cases t with
    | client =>
      refine h.move rfl (carried_client rfl) fun i => ?_
      have hwrite := count_writeREQ s r i
      have hgoto := count_goto_client (s.writeREQ r) (.waiting r) i
      have hpending : ((s.writeREQ r).pc .client).pending = some r := congrArg CallPc.pending hp
      rw [hpending, hwrite] at hgoto
      exact Nat.add_right_cancel hgoto
    | user n =>
      refine h.emit rfl rfl (congrArg CallPc.pending hp) rfl fun _ i => ?_
      rw [List.count_cons, ← List.count_singleton]
      exact (congrArg (List.count i) (places_goto_user ..)).trans (count_queue s (.write r) i)
  | gotRsp t r ht hp => exact h.keep rfl rfl hp rfl (count_keep rfl rfl rfl rfl rfl)
  | noResponse t r ht hp => exact h.keep rfl rfl hp rfl (count_keep rfl rfl rfl rfl rfl)
  | replyBool t r ht hp => exact h.keep rfl rfl hp rfl (count_keep rfl rfl rfl rfl rfl)
  | reply t r ht hp => exact h.keep rfl rfl hp rfl (count_keep rfl rfl rfl rfl rfl)
  | unlock t r o ht hp => exact h.keep rfl rfl hp rfl (count_keep rfl rfl rfl rfl rfl)
  | handBusy r hh hm =>
    refine h.move rfl rfl fun i => ?_
    have hand := count_hand s (.busy r) i
    rw [hh] at hand
    exact Nat.add_right_cancel hand
  | handLock r hh hm hp =>
    refine h.move rfl (carried_client rfl) fun i => ?_
    have hand := count_hand (s.setMutex true) .idle i
    have hgoto := count_goto_client { s.setMutex true with hand := .idle } (.locked r) i
    have hpc : ({ s.setMutex true with hand := .idle } : JSONSystem).pc .client = .idle := hp
    have hr : (s.setMutex true).hand = .tryLock r := hh
    rw [hr] at hand
    rw [hpc] at hgoto
    exact hgoto.trans hand
  | handEmit r hh =>
    refine h.move rfl rfl fun i => ?_
    have hbusy : ((s.busyREQ r).ret r .busy).places.count i = _ := count_busyREQ s r i
    have hand := count_hand ((s.busyREQ r).ret r .busy) .idle i
    have hr : ((s.busyREQ r).ret r .busy).hand = .busy r := hh
    rw [hr, hbusy] at hand
    exact Nat.add_right_cancel hand
  | deliverBusy r es hf he =>
    refine h.move rfl rfl fun i => ?_
    have hbusy := count_busyREQ { s with events := es } r i
    have hevents := count_events s es i
    rw [he, List.map_cons, List.count_cons, ← List.count_singleton] at hevents
    simp only [Event.request] at hevents
    omega
  | deliverWrite r es hf he =>
    refine h.move rfl rfl fun i => ?_
    have hwrite := count_writeREQ { s with events := es } r i
    have hevents := count_events s es i
    rw [he, List.map_cons, List.count_cons, ← List.count_singleton] at hevents
    simp only [Event.request] at hevents
    omega
  | timeoutSome r hf hr =>
    refine h.move rfl rfl fun i => ?_
    rw [count_places, count_places, hr, hf.hand]
    simp only [HandPc.request, Option.toList_some, Option.toList_none, List.map_nil, List.count_nil]
    omega
  | timeoutNone hf hr => exact h.move rfl rfl fun _ => rfl
  | readyRead => exact h.move rfl rfl fun _ => rfl
  | readNull => exact h.move rfl rfl fun _ => rfl
  | readValue => exact h.move rfl rfl fun _ => rfl

theorem init_accounted : init.Accounted := Ledger.empty

theorem Accounted.written {s : JSONSystem} (h : s.Accounted) : (s.written.map (·.id)).Nodup ∧
    ∀ r ∈ s.written, ∀ d ∈ s.discarded, d.request.id ≠ r.id := by
  have honce := h.once
  simp only [places, List.append_assoc] at honce
  obtain ⟨hw, _, hd⟩ := List.nodup_append.1 honce
  refine ⟨hw, fun r hr d hdis he => ?_⟩
  have hplace : d.request.id ∈ s.discarded.map (·.request.id) := List.mem_map_of_mem hdis
  exact hd r.id (List.mem_map_of_mem hr) d.request.id (List.mem_append_left _ hplace) he.symm

end JSONSystem

namespace JSONConnection

theorem init_accounted {s : JSONConnection} (h : s.sys.Accounted) (connects : Bool) :
    (s.init connects).sys.Accounted := by
  rw [init_eq]
  unfold uninit deleteTimer deleteSocket
  split <;> split <;> exact h

theorem step_accounted {s t : JSONConnection} (h : s.sys.Accounted) (hs : step s a = some t) :
    t.sys.Accounted := by
  cases a with
  | init connects =>
    simp only [step] at hs
    split at hs
    · cases hs
    · cases hs
      exact init_accounted h connects
  | json a =>
    obtain ⟨_, sys, hstep, rfl⟩ := step_json_cases hs
    exact JSONSystem.step_accounted h hstep
  | disconnected connects =>
    simp only [step] at hs
    split at hs
    · cases hs
      exact init_accounted h connects
    · cases hs

/-- Over any number of reconnects each request made is in one place, so that none is given to the
socket twice, and none that was dropped. -/
theorem requests_in_one_place {t : JSONConnection} (hr : Sys.run step start acts = some t) :
    (t.sys.written.map (·.id)).Nodup ∧
      (∀ r ∈ t.sys.written, ∀ d ∈ t.sys.discarded, d.request.id ≠ r.id) ∧
      Ledger t.sys.calls t.sys.places t.sys.carried := by
  have h : t.sys.Accounted := Sys.run_invariant (I := fun s => s.sys.Accounted)
    (fun _ _ _ h hs => step_accounted h hs) JSONSystem.init_accounted hr
  exact ⟨h.written.1, h.written.2, h⟩

/-- Of two calls made at once the second is queued, and sent by the timer after a reconnect. -/
theorem requests_in_one_place_two :
    let acts : List Act := [.init true, .json (.call (.user 0) "GET" .invalid),
      .json (.call (.user 1) "SET" (.bool true)), .json (.callStep (.user 0)),
      .json (.callStep (.user 0)), .json (.callStep (.user 0)), .json (.callStep (.user 0)),
      .json (.callStep (.user 0)), .json .deliver, .json (.callStep (.user 1)), .json .deliver,
      .json .timeout, .json .handStep, .json (.callStep .client), .json (.callStep .client),
      .json (.callStep .client), .disconnected true]
    ∃ t, Sys.run step start acts = some t ∧ t.sys.written.map (·.id) = [0, 1] ∧
      (t.sys.written.map (·.id)).Nodup := by
  intro acts
  obtain ⟨t, hr, hw⟩ : ∃ t, Sys.run step start acts = some t ∧
      t.sys.written.map (·.id) = [0, 1] := ⟨_, rfl, rfl⟩
  exact ⟨t, hr, hw, (requests_in_one_place hr).1⟩

end JSONConnection
end Avs4000
