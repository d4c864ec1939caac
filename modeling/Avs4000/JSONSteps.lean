import Avs4000.TcpJSONClient

namespace Avs4000
namespace JSONSystem
set_option autoImplicit true

/-- No slot is at work in the client thread, besides a call that waits. -/
structure Free (s : JSONSystem) : Prop where
  hand : s.hand = .idle
  reading : s.reading = none
  pc : s.pc .client = .idle ∨ ∃ r, s.pc .client = .waiting r

/-- The call in a thread can go on, in the client thread once the slots it let run have ended. -/
def CanStep (s : JSONSystem) (t : Thread) : Prop := t = .client → s.hand = .idle ∧ s.reading = none

def isBool (rsp : Option Answer) : Bool := ((rsp.map Answer.value).getD .invalid).isBool

/-- What the steps do, one case for each way they can go. -/
inductive Step (s : JSONSystem) : Act → JSONSystem → Prop
  | callClient (cmd : String) (arg : QVariant) (hf : s.Free) :
    Step s (.call .client cmd arg)
      { s with hand := .tryLock (s.newRequest .client cmd arg), calls := s.calls + 1 }
  | callBusy (n : Nat) (cmd : String) (arg : QVariant) (hp : s.pc (.user n) = .idle)
    (hm : s.client.mutex = true) : Step s (.call (.user n) cmd arg)
      ({ s with calls := s.calls + 1 }.goto (.user n) (.busy (s.newRequest (.user n) cmd arg)))
  | callLock (n : Nat) (cmd : String) (arg : QVariant) (hp : s.pc (.user n) = .idle)
    (hm : s.client.mutex = false) : Step s (.call (.user n) cmd arg)
      ({ s.setMutex true with calls := s.calls + 1 }.goto (.user n)
        (.locked (s.newRequest (.user n) cmd arg)))
  | emitBusy (t : Thread) (r : Request) (ht : s.CanStep t) (hp : s.pc t = .busy r) :
    Step s (.callStep t) (((s.emitBusy t r).ret r .busy).goto t .idle)
  | clearBusyReq (t : Thread) (r : Request) (ht : s.CanStep t) (hp : s.pc t = .locked r) :
    Step s (.callStep t) ((s.clearBusyReq r).goto t (.slotCleared r))
  | clearRsp (t : Thread) (r : Request) (ht : s.CanStep t) (hp : s.pc t = .slotCleared r) :
    Step s (.callStep t) (s.clearRsp.goto t (.rspCleared r))
  | sendREQ (t : Thread) (r : Request) (ht : s.CanStep t) (hp : s.pc t = .rspCleared r) :
    Step s (.callStep t) ((s.sendREQ t r).goto t (.waiting r))
  | gotRsp (t : Thread) (r : Request) (ht : s.CanStep t) (hp : s.pc t = .waiting r) (a : Answer)
    (hr : s.client.rsp = some a) : Step s (.callStep t) (s.goto t (.gotRsp r))
  | noResponse (t : Thread) (r : Request) (ht : s.CanStep t) (hp : s.pc t = .waiting r)
    (hr : s.client.rsp = none) : Step s (.callStep t) (s.goto t (.unlocking r .noResponse))
  | replyBool (t : Thread) (r : Request) (ht : s.CanStep t) (hp : s.pc t = .gotRsp r)
    (hb : isBool s.client.rsp = true) :
    Step s (.callStep t) ((s.ret r (.reply s.client.rsp)).goto t .idle)
  | reply (t : Thread) (r : Request) (ht : s.CanStep t) (hp : s.pc t = .gotRsp r)
    (hb : isBool s.client.rsp = false) :
    Step s (.callStep t) (s.goto t (.unlocking r (.reply s.client.rsp)))
  | unlock (t : Thread) (r : Request) (o : Outcome) (ht : s.CanStep t)
    (hp : s.pc t = .unlocking r o) :
    Step s (.callStep t) (((s.setMutex false).ret r o).goto t .idle)
  | handBusy (r : Request) (hh : s.hand = .tryLock r) (hm : s.client.mutex = true) :
    Step s .handStep { s with hand := .busy r }
  | handLock (r : Request) (hh : s.hand = .tryLock r) (hm : s.client.mutex = false)
    (hp : s.pc .client = .idle) :
    Step s .handStep ({ s.setMutex true with hand := .idle }.goto .client (.locked r))
  | handEmit (r : Request) (hh : s.hand = .busy r) :
    Step s .handStep { (s.busyREQ r).ret r .busy with hand := .idle }
  | deliverBusy (r : Request) (es : List Event) (hf : s.Free) (he : s.events = .busy r :: es) :
    Step s .deliver ({ s with events := es }.busyREQ r)
  | deliverWrite (r : Request) (es : List Event) (hf : s.Free) (he : s.events = .write r :: es) :
    Step s .deliver ({ s with events := es }.writeREQ r)
  | timeoutNone (hf : s.Free) (hr : s.client.busyReq = none) :
    Step s .timeout { s with client := { s.client with timer := false } }
  | timeoutSome (r : Request) (hf : s.Free) (hr : s.client.busyReq = some r) :
    Step s .timeout
      { s with client := { s.client with timer := false, busyReq := none }, hand := .tryLock r }
  | readyRead (values : List (Option QVariant)) (l : Line) (rest : List Line) (hf : s.Free)
    (hd : ∀ v ∈ values, parsed v = true) (hv : values ≠ [])
    (hn : s.answered + values.length ≤ s.written.length)
    (hl : s.lines ++ List.zipWith Line.mk (s.written.drop s.answered) values = l :: rest) :
    Step s (.readyRead values) { s.clearRsp with
      lines := rest, reading := some l, answered := s.answered + values.length }
  | readNull (r : Request) (hr : s.reading = some ⟨r, none⟩) :
    Step s .readDone { s with reading := none }
  | readValue (r : Request) (v : QVariant) (hr : s.reading = some ⟨r, some v⟩) :
    Step s .readDone { s with reading := none, client := { s.client with rsp := some ⟨r, v⟩ } }

theorem clientFree_iff {s : JSONSystem} : s.clientFree = true ↔ s.Free := by
  constructor
  · intro h
    unfold clientFree at h
    split at h
    case h_1 hh hr hp => exact ⟨hh, hr, .inl hp⟩
    case h_2 r hh hr hp => exact ⟨hh, hr, .inr ⟨r, hp⟩⟩
    case h_3 => cases h
  · rintro ⟨hh, hr, hp | ⟨r, hp⟩⟩ <;> simp only [clientFree, hh, hr, hp]

theorem callStep_cases {s u : JSONSystem} (ht : s.CanStep t) (h : s.callStep t = some u) :
    Step s (.callStep t) u := by
  cases hp : s.pc t with
  | idle =>
    simp only [callStep, hp] at h
    cases h
  | busy r =>
    simp only [callStep, hp, Option.some.injEq] at h
    exact h ▸ .emitBusy t r ht hp
  | locked r =>
    simp only [callStep, hp, Option.some.injEq] at h
    exact h ▸ .clearBusyReq t r ht hp
  | slotCleared r =>
    simp only [callStep, hp, Option.some.injEq] at h
    exact h ▸ .clearRsp t r ht hp
  | rspCleared r =>
    simp only [callStep, hp, Option.some.injEq] at h
    exact h ▸ .sendREQ t r ht hp
  | waiting r =>
    simp only [callStep, hp] at h
    cases hr : s.client.rsp with
    | none =>
      simp only [hr, Option.isSome_none, Bool.false_eq_true, if_false, Option.some.injEq] at h
      exact h ▸ .noResponse t r ht hp hr
    | some a =>
      simp only [hr, Option.isSome_some, if_true, Option.some.injEq] at h
      exact h ▸ .gotRsp t r ht hp a hr
  | gotRsp r =>
    simp only [callStep, hp] at h
    split at h <;> rename_i hb <;> cases h
    · exact .replyBool t r ht hp hb
    · exact .reply t r ht hp (Bool.not_eq_true _ ▸ hb)
  | unlocking r o =>
    simp only [callStep, hp, Option.some.injEq] at h
    exact h ▸ .unlock t r o ht hp

theorem handStep_cases {s u : JSONSystem} (h : s.handStep = some u) : Step s .handStep u := by
  cases hh : s.hand with
  | idle =>
    simp only [handStep, hh] at h
    cases h
  | tryLock r =>
    simp only [handStep, hh] at h
    split at h
    · next hm =>
      cases h
      exact .handBusy r hh hm
    · next hm =>
      split at h
      · next hp =>
        cases h
        exact .handLock r hh (Bool.not_eq_true _ ▸ hm) hp
      · cases h
  | busy r =>
    simp only [handStep, hh, Option.some.injEq] at h
    exact h ▸ .handEmit r hh

theorem step_cases {s u : JSONSystem} (h : step s a = some u) : Step s a u := by
  cases a with
  | call t cmd arg =>
    cases t with
    | client =>
      simp only [step] at h
      split at h
      · next hf =>
        cases h
        exact .callClient cmd arg (clientFree_iff.1 hf)
      · cases h
    | user n =>
      simp only [step] at h
      split at h
      · next hp =>
        split at h <;> rename_i hm <;> cases h
        · exact .callBusy n cmd arg hp hm
        · exact .callLock n cmd arg hp (Bool.not_eq_true _ ▸ hm)
      · cases h
  | callStep t =>
    cases t with
    | client =>
      simp only [step] at h
      split at h
      · next hh hr => exact callStep_cases (fun _ => ⟨hh, hr⟩) h
      · cases h
    | user n => exact callStep_cases (fun ht => nomatch ht) h
  | handStep => exact handStep_cases h
  | deliver =>
    simp only [step] at h
    split at h
    · next hf =>
      split at h
      · cases h
      · next r es he =>
        cases h
        exact .deliverBusy r es (clientFree_iff.1 hf) he
      · next r es he =>
        cases h
        exact .deliverWrite r es (clientFree_iff.1 hf) he
    · cases h
  | timeout =>
    simp only [step] at h
    split at h
    · next hf =>
      rw [Bool.and_eq_true] at hf
      split at h
      · next hr =>
        cases h
        exact .timeoutNone (clientFree_iff.1 hf.1) hr
      · next r hr =>
        rw [Request.resend_eq] at h
        cases h
        exact .timeoutSome r (clientFree_iff.1 hf.1) hr
    · cases h
  | readyRead values =>
    simp only [step] at h
    split at h
    · next hf =>
      rw [Bool.and_eq_true, Bool.and_eq_true, decide_eq_true_eq, List.all_eq_true] at hf
      obtain ⟨⟨hf, hd⟩, hn⟩ := hf
      split at h
      · next l rest v vs hl =>
        cases h
        exact .readyRead _ l rest (clientFree_iff.1 hf) hd (List.cons_ne_nil v vs) hn hl
      · cases h
    · cases h
  | readDone =>
    simp only [step] at h
    split at h
    · cases h
    · next r hr =>
      cases h
      exact .readNull r hr
    · next r v hr =>
      cases h
      exact .readValue r v hr

theorem update_same (f : CallPc → γ) {pc : Thread → CallPc} (h : f x = f (pc t)) (v : Thread) :
    f (Function.update pc t x v) = f (pc v) := by
  by_cases hv : v = t
  · subst hv
    rw [Function.update_self, h]
  · rw [Function.update_of_ne hv]

theorem step_unlocking {Q : Outcome → Prop} (hn : Q .noResponse)
    (hr : ∀ rsp, isBool rsp = false → Q (.reply rsp))
    (h : ∀ t r o, s.pc t = .unlocking r o → Q o) (hs : Step s a u) :
    ∀ t r o, u.pc t = .unlocking r o → Q o := by
  have hupdate {t : Thread} {x : CallPc} (hx : ∀ r o, x = .unlocking r o → Q o) :
      ∀ v r o, Function.update s.pc t x v = .unlocking r o → Q o :=
    (Function.forall_update_iff s.pc fun _ x => ∀ r o, x = .unlocking r o → Q o).2
      ⟨hx, fun v _ => h v⟩
  cases hs with
  | callClient | handBusy | handEmit | deliverBusy | deliverWrite | timeoutNone | timeoutSome
  | readyRead | readNull | readValue => exact h
  | callBusy | callLock | clearBusyReq | clearRsp | gotRsp | replyBool | unlock | handLock =>
    exact hupdate nofun
  | emitBusy t r ht hp =>
    cases t with
    | client | user n => exact hupdate nofun
  | sendREQ t r ht hp =>
    cases t with
    | client | user n => exact hupdate nofun
  | noResponse =>
    refine hupdate ?_
    intro _ _ he
    cases he
    exact hn
  | reply t r ht hp hb =>
    refine hupdate ?_
    intro _ _ he
    cases he
    exact hr _ hb

end JSONSystem
end Avs4000
