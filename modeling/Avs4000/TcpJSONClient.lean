import Avs4000.Lib.Run
import Avs4000.QVariant
import Mathlib.Logic.Function.Basic

namespace Avs4000
set_option autoImplicit true

/-- The threads that make calls. The slots of the client run in the thread `client`. -/
inductive Thread
  | client
  | user (n : Nat)
  deriving DecidableEq

/-- The list `Call` sends for a command and its argument. -/
def callReq (cmd : String) (arg : QVariant) : List QVariant :=
  .string cmd :: if arg.isValid && !arg.isNull then [arg] else []

/-- What a call of `Call` asks for. Calls are numbered in the order they are made. -/
structure Request where
  id : Nat
  thread : Thread
  req : List QVariant
  formed : ∃ cmd arg, req = callReq cmd arg

/-- A response in `rsp`, with the request the server answered by it. -/
structure Answer where
  request : Request
  value : QVariant

/-- What the JSON parser makes of a line: a document, or nothing. -/
def parsed (value : Option QVariant) : Bool := value.all QVariant.isDocument

/-- A line the server sent, as the JSON parser takes it. -/
structure Line where
  request : Request
  value : Option QVariant

/-- What `Call` hands back. `rval` and the error are set on some paths only. -/
structure CallResult where
  success : Bool
  rval : Option QVariant
  error : Option (UInt32 × String)

/-- How a call came to return. A response may be cleared before it is looked at. -/
inductive Outcome
  | busy
  | reply (rsp : Option Answer)
  | noResponse

structure Return where
  request : Request
  outcome : Outcome

/-- How a request left `busyReq` unsent. -/
inductive Cause
  | overwritten (r : Request)
  | cleared (r : Request)

structure Discard where
  request : Request
  cause : Cause

/-- A signal on its way to the client thread. -/
inductive Event
  | busy (r : Request)
  | write (r : Request)

/-- Where a thread stands in `Call`, each point in front of one access to what is shared. -/
inductive CallPc
  | idle
  | busy (r : Request)
  | locked (r : Request)
  | slotCleared (r : Request)
  | rspCleared (r : Request)
  | waiting (r : Request)
  | gotRsp (r : Request)
  | unlocking (r : Request) (o : Outcome)

/-- A call made in the client thread, up to where it has the mutex. It may be made while another
one waits there. -/
inductive HandPc
  | idle
  | tryLock (r : Request)
  | busy (r : Request)

structure TcpJSONClient where
  mutex : Bool
  busyReq : Option Request
  timer : Bool
  rsp : Option Answer

/-- The client with an open socket, the threads that call it, and the server at the other end.
`answered` counts the requests whose answers have arrived, `lines` has those not yet read. -/
structure JSONSystem where
  client : TcpJSONClient
  events : List Event
  pc : Thread → CallPc
  hand : HandPc
  written : List Request
  answered : Nat
  lines : List Line
  reading : Option Line
  calls : Nat
  returned : List Return
  discarded : List Discard

def apiTimeout : UInt32 := 15

/-- The part of `Call` that takes a response apart. -/
def decodeRsp (rsp : QVariant) : CallResult :=
  match rsp with
  | .bool b => ⟨b, some .invalid, none⟩
  | _ =>
    let list := rsp.toList
    let success := (list.head?.map QVariant.toBool).getD false
    { success := success
      rval := some (if success then list.getD 1 .invalid else .invalid)
      error :=
        if success then none
        else
          match list with
          | _ :: code :: details :: _ => some (code.toUInt, details.toString)
          | _ => none }

def Outcome.result : Outcome → CallResult
  | .busy => ⟨true, none, none⟩
  | .reply rsp => decodeRsp ((rsp.map Answer.value).getD .invalid)
  | .noResponse => ⟨false, some .invalid, some (apiTimeout, "No Response")⟩

/-- The request `SendBusyReq` makes from the list in `busyReq`. -/
def Request.resend (r : Request) : Request where
  id := r.id
  thread := r.thread
  req := callReq (r.req.getD 0 .invalid).toString (r.req.getD 1 .invalid)
  formed := ⟨_, _, rfl⟩

theorem callReq_again (cmd : String) (arg : QVariant) :
    callReq ((callReq cmd arg).getD 0 .invalid).toString ((callReq cmd arg).getD 1 .invalid) =
      callReq cmd arg := by
  by_cases h : (arg.isValid && !arg.isNull) = true
  · have hc : callReq cmd arg = [.string cmd, arg] := by rw [callReq, if_pos h]
    rw [hc]
    exact hc
  · have hc : callReq cmd arg = [.string cmd] := by rw [callReq, if_neg h]
    rw [hc]
    rfl

@[simp] theorem Request.resend_eq (r : Request) : r.resend = r := by
  rcases r with ⟨id, thread, req, cmd, arg, rfl⟩
  rw [resend, mk.injEq]
  exact ⟨rfl, rfl, callReq_again cmd arg⟩

namespace JSONSystem

def init : JSONSystem where
  client := ⟨false, none, false, none⟩
  events := []
  pc _ := .idle
  hand := .idle
  written := []
  answered := 0
  lines := []
  reading := none
  calls := 0
  returned := []
  discarded := []

def setMutex (s : JSONSystem) (b : Bool) : JSONSystem :=
  { s with client := { s.client with mutex := b } }

def goto (s : JSONSystem) (t : Thread) (pc : CallPc) : JSONSystem :=
  { s with pc := Function.update s.pc t pc }

def busyREQ (s : JSONSystem) (r : Request) : JSONSystem :=
  { s with
    client := { s.client with busyReq := some r, timer := true }
    discarded := s.discarded ++ s.client.busyReq.toList.map (⟨·, .overwritten r⟩) }

def clearBusyReq (s : JSONSystem) (r : Request) : JSONSystem :=
  { s with
    client := { s.client with busyReq := none }
    discarded := s.discarded ++ s.client.busyReq.toList.map (⟨·, .cleared r⟩) }

def clearRsp (s : JSONSystem) : JSONSystem := { s with client := { s.client with rsp := none } }

def writeREQ (s : JSONSystem) (r : Request) : JSONSystem :=
  { s.clearRsp with written := s.written ++ [r] }

/-- A signal emitted in the client thread runs its slot at once. -/
def emitBusy (s : JSONSystem) (t : Thread) (r : Request) : JSONSystem :=
  if t = .client then s.busyREQ r else { s with events := s.events ++ [.busy r] }

def sendREQ (s : JSONSystem) (t : Thread) (r : Request) : JSONSystem :=
  if t = .client then s.writeREQ r else { s with events := s.events ++ [.write r] }

def ret (s : JSONSystem) (r : Request) (o : Outcome) : JSONSystem :=
  { s with returned := s.returned ++ [⟨r, o⟩] }

section
variable (s : JSONSystem) (t : Thread) (r : Request)

@[simp] theorem emitBusy_pc : (s.emitBusy t r).pc = s.pc := by
  rw [emitBusy]
  split <;> rfl

@[simp] theorem emitBusy_mutex : (s.emitBusy t r).client.mutex = s.client.mutex := by
  rw [emitBusy]
  split <;> rfl

@[simp] theorem emitBusy_returned : (s.emitBusy t r).returned = s.returned := by
  rw [emitBusy]
  split <;> rfl

@[simp] theorem sendREQ_pc : (s.sendREQ t r).pc = s.pc := by
  rw [sendREQ]
  split <;> rfl

@[simp] theorem sendREQ_mutex : (s.sendREQ t r).client.mutex = s.client.mutex := by
  rw [sendREQ]
  split <;> rfl

@[simp] theorem sendREQ_returned : (s.sendREQ t r).returned = s.returned := by
  rw [sendREQ]
  split <;> rfl

end

/-- The next step of the `Call` that runs in a thread. The wait for a response may end at any
time, by the response or by the timeout. -/
def callStep (s : JSONSystem) (t : Thread) : Option JSONSystem :=
  match s.pc t with
  | .idle => none
  | .busy r => some (((s.emitBusy t r).ret r .busy).goto t .idle)
  | .locked r => some ((s.clearBusyReq r).goto t (.slotCleared r))
  | .slotCleared r => some (s.clearRsp.goto t (.rspCleared r))
  | .rspCleared r => some ((s.sendREQ t r).goto t (.waiting r))
  | .waiting r =>
    if s.client.rsp.isSome then some (s.goto t (.gotRsp r))
    else some (s.goto t (.unlocking r .noResponse))
  | .gotRsp r =>
    if ((s.client.rsp.map Answer.value).getD .invalid).isBool then
      some ((s.ret r (.reply s.client.rsp)).goto t .idle)
    else some (s.goto t (.unlocking r (.reply s.client.rsp)))
  | .unlocking r o => some (((s.setMutex false).ret r o).goto t .idle)

/-- The call made in the client thread goes on. -/
def handStep (s : JSONSystem) : Option JSONSystem :=
  match s.hand with
  | .idle => none
  | .tryLock r =>
    if s.client.mutex then some { s with hand := .busy r }
    else
      match s.pc .client with
      | .idle => some ({ s.setMutex true with hand := .idle }.goto .client (.locked r))
      | _ => none
  | .busy r => some { (s.emitBusy .client r).ret r .busy with hand := .idle }

/-- No slot is at work in the client thread, besides a call that waits. -/
def clientFree (s : JSONSystem) : Bool :=
  match s.hand, s.reading, s.pc .client with
  | .idle, none, .idle | .idle, none, .waiting _ => true
  | _, _, _ => false

inductive Act
  | call (t : Thread) (cmd : String) (arg : QVariant)
  | callStep (t : Thread)
  | handStep
  | deliver
  | timeout
  | readyRead (values : List (Option QVariant))
  | readDone

def newRequest (s : JSONSystem) (t : Thread) (cmd : String) (arg : QVariant) : Request :=
  ⟨s.calls, t, callReq cmd arg, cmd, arg, rfl⟩

/-- One step of a thread, or of the client thread's event loop. `readyRead` comes when the answers
to some more requests arrive, and `ReadAvailable` takes one line. -/
def step (s : JSONSystem) : Act → Option JSONSystem
  | .call .client cmd arg =>
    if s.clientFree then
      some { s with hand := .tryLock (s.newRequest .client cmd arg), calls := s.calls + 1 }
    else none
  | .call (.user n) cmd arg =>
    let r := s.newRequest (.user n) cmd arg
    match s.pc (.user n) with
    | .idle =>
      if s.client.mutex then some ({ s with calls := s.calls + 1 }.goto (.user n) (.busy r))
      else some ({ s.setMutex true with calls := s.calls + 1 }.goto (.user n) (.locked r))
    | _ => none
  | .callStep .client =>
    match s.hand, s.reading with
    | .idle, none => s.callStep .client
    | _, _ => none
  | .callStep (.user n) => s.callStep (.user n)
  | .handStep => s.handStep
  | .deliver =>
    if s.clientFree then
      match s.events with
      | [] => none
      | .busy r :: es => some ({ s with events := es }.busyREQ r)
      | .write r :: es => some ({ s with events := es }.writeREQ r)
    else none
  | .timeout =>
    if s.clientFree && s.client.timer then
      match s.client.busyReq with
      | none => some { s with client := { s.client with timer := false } }
      | some r => some { s with
          client := { s.client with timer := false, busyReq := none }, hand := .tryLock r.resend }
    else none
  | .readyRead values =>
    if s.clientFree && values.all parsed &&
        decide (s.answered + values.length ≤ s.written.length) then
      match s.lines ++ List.zipWith Line.mk (s.written.drop s.answered) values, values with
      | l :: rest, _ :: _ => some { s.clearRsp with
          lines := rest, reading := some l, answered := s.answered + values.length }
      | _, _ => none
    else none
  | .readDone =>
    match s.reading with
    | none => none
    | some ⟨_, none⟩ => some { s with reading := none }
    | some ⟨r, some v⟩ => some { s with
        reading := none, client := { s.client with rsp := some ⟨r, v⟩ } }

end JSONSystem
end Avs4000
