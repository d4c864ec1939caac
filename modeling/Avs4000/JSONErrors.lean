import Avs4000.TcpJSONClient

namespace Avs4000
set_option autoImplicit true

/-- `Call`, as the functions that are built on it see it. -/
abbrev CallFn := String → QVariant → CallResult

/-- The functions of a `TcpJSONClient` that hand back `errorCode` and `errorDetails`. -/
inductive CallEntry
  | call (cmd : String) (arg : QVariant)
  | set (map : List (String × QVariant))
  | setN (map : List (String × QVariant))
  | setParam (param : String) (val : QVariant)
  | commit
  | discard

namespace TcpJSONClient

/-- A return before anything is called. -/
def refused : CallResult := ⟨false, none, none⟩

def set (call : CallFn) (map : List (String × QVariant)) : CallResult := call "SET" (.map map)

def setN (call : CallFn) (map : List (String × QVariant)) : CallResult := call "SETN" (.map map)

def setParam (call : CallFn) (param : String) (val : QVariant) : CallResult :=
  match param.splitOn "." with
  | [g, p] =>
    if g.length = 0 ∨ p.length = 0 then refused else call "SET" (.map [(g, .map [(p, val)])])
  | _ => refused

def commit (call : CallFn) : CallResult := call "COMMIT" .invalid

def discard (call : CallFn) : CallResult := call "DISCARD" .invalid

end TcpJSONClient

namespace CallEntry
open TcpJSONClient

def run (call : CallFn) : CallEntry → CallResult
  | .call cmd arg => call cmd arg
  | .set map => TcpJSONClient.set call map
  | .setN map => TcpJSONClient.setN call map
  | .setParam param val => TcpJSONClient.setParam call param val
  | .commit => TcpJSONClient.commit call
  | .discard => TcpJSONClient.discard call

/-- The command and the argument that reach `Call`. A parameter name must be in GRP.PARAM format
to get there. -/
def request : CallEntry → Option (String × QVariant)
  | .call cmd arg => some (cmd, arg)
  | .set map => some ("SET", .map map)
  | .setN map => some ("SETN", .map map)
  | .setParam param val =>
    match param.splitOn "." with
    | [g, p] =>
      if g.length = 0 ∨ p.length = 0 then none else some ("SET", .map [(g, .map [(p, val)])])
    | _ => none
  | .commit => some ("COMMIT", .invalid)
  | .discard => some ("DISCARD", .invalid)

theorem run_eq (e : CallEntry) (call : CallFn) :
    e.run call = (e.request.map fun r => call r.1 r.2).getD refused := by
  cases e with
  | setParam param val =>
    simp only [run, TcpJSONClient.setParam, request]
    split
    · split <;> rfl
    · rfl
  | call | set | setN | commit | discard => rfl

end CallEntry

/-- The error is assigned if there is one. -/
def CallResult.FailureHasError (r : CallResult) : Prop := r.success = false → r.error.isSome = true

/-- A response that reports success, or a failure with a code and details. -/
def QVariant.ReportsError : QVariant → Prop
  | .bool b => b = true
  | .list l => 3 ≤ l.length ∨ ∃ v, l.head? = some v ∧ v.toBool = true
  | _ => False

/-- What becomes of a request reports success or an error. A response that is gone when it is
looked at does not. -/
def Outcome.ReportsError : Outcome → Prop
  | .busy | .noResponse => True
  | .reply rsp => ∃ a, rsp = some a ∧ a.value.ReportsError

theorem decodeRsp_list (l : List QVariant) :
    (decodeRsp (.list l)).FailureHasError ↔ (QVariant.list l).ReportsError := by
  rcases l with _ | ⟨v, _ | ⟨code, _ | ⟨details, l⟩⟩⟩
  · simp [CallResult.FailureHasError, decodeRsp, QVariant.ReportsError, QVariant.toList]
  · cases hv : v.toBool <;>
      simp [CallResult.FailureHasError, decodeRsp, QVariant.ReportsError, QVariant.toList, hv]
  · cases hv : v.toBool <;>
      simp [CallResult.FailureHasError, decodeRsp, QVariant.ReportsError, QVariant.toList, hv]
  · cases hv : v.toBool <;>
      simp [CallResult.FailureHasError, decodeRsp, QVariant.ReportsError, QVariant.toList, hv]

theorem decodeRsp_failure (v : QVariant) :
    (decodeRsp v).FailureHasError ↔ v.ReportsError := by
  have hnone : ¬(⟨false, some .invalid, none⟩ : CallResult).FailureHasError := by
    intro h
    cases h rfl
  cases v with
  | bool b => cases b <;> simp [CallResult.FailureHasError, decodeRsp, QVariant.ReportsError]
  | list l => exact decodeRsp_list l
  | invalid | null | number | string | map => exact ⟨fun h => hnone h, False.elim⟩

theorem Outcome.failure (o : Outcome) : o.result.FailureHasError ↔ o.ReportsError := by
  cases o with
  | busy => exact ⟨fun _ => trivial, fun _ h => by cases h⟩
  | noResponse => exact ⟨fun _ => trivial, fun _ _ => rfl⟩
  | reply rsp =>
    rw [result, decodeRsp_failure, ReportsError]
    cases rsp with
    | none => exact ⟨False.elim, by rintro ⟨a, h, _⟩; cases h⟩
    | some a =>
      constructor
      · exact fun h => ⟨a, rfl, h⟩
      · rintro ⟨b, hb, h⟩
        cases hb
        exact h

/-- A failure comes with an error exactly if the request gets to the server and the server, where
it answers, reports one. -/
theorem failure_has_error_iff (e : CallEntry) (server : List QVariant → Outcome) :
    (e.run fun cmd arg => (server (callReq cmd arg)).result).FailureHasError ↔
      ∃ r, e.request = some r ∧ (server (callReq r.1 r.2)).ReportsError := by
  rw [CallEntry.run_eq]
  cases he : e.request with
  | none =>
    constructor
    · intro h
      cases h rfl
    · rintro ⟨r, hr, _⟩
      cases hr
  | some r =>
    change (server (callReq r.1 r.2)).result.FailureHasError ↔ _
    rw [Outcome.failure]
    constructor
    · exact fun h => ⟨r, rfl, h⟩
    · rintro ⟨r', hr, h⟩
      cases hr
      exact h

/-- The server refuses a commit with the list `[false]`. -/
theorem commit_fails_without_error : ∃ server : List QVariant → Outcome,
    ¬(CallEntry.commit.run fun cmd arg => (server (callReq cmd arg)).result).FailureHasError := by
  refine ⟨fun req => .reply (some
    ⟨⟨0, .client, callReq "COMMIT" .invalid, _, _, rfl⟩, .list [.bool false]⟩), ?_⟩
  intro h
  cases h rfl

end Avs4000
