import Avs4000.BlockSteps

namespace Avs4000
namespace AVS4000Client
open TcpJSONClient
set_option autoImplicit true

def disconnectMap (d : Dir) : List (String × QVariant) :=
  [(d.data, .map (("ConEnable", .bool false) :: d.runOff))]

def connectMap (d : Dir) (port : UInt16) (useVita49 : Bool) : List (String × QVariant) :=
  [(d.data, .map ([("ConEnable", .bool true), ("ConType", .string "tcp"),
    ("ConPort", .ofUInt port.toUInt32), ("UseV49", .bool useVita49), ("UseBE", .bool false)] ++
    d.runOff))]

/-- The requests when one more `SET` is made. -/
def sent (requests : List (List QVariant)) (map : List (String × QVariant)) :
    List (List QVariant) :=
  requests ++ [callReq "SET" (.map map)]

/-- A connect returns true only with a client installed that has its buffer attached to a
connection. When it returns false no client is installed and the error is assigned. -/
def Truthful (d : Dir) (r : CallResult × Session) : Prop :=
  (r.1.success = true →
    ∃ i c, r.2.client.sig d = some i ∧ r.2.signals[i]? = some c ∧ c.alive = true ∧
      c.sock = true ∧ c.attached = true) ∧
  (r.1.success = false → r.2.client.sig d = none ∧ r.1.error.isSome = true)

/-- The server agrees to connect or reports an error, and if it agrees, the connection comes
about. -/
def Connects (d : Dir) (host : String) (port : UInt16) (useVita49 : Bool) (o : Outside)
    (requests : List (List QVariant)) : Prop :=
  let requests := sent requests (connectMap d port useVita49)
  let n := o.network requests
  (o.server requests).ReportsError ∧
    ((o.server requests).result.success = true →
      n.socket = true ∧ n.connect (SignalClient.addr n host) port = true)

/-- The same after a disconnect, if there is a client to disconnect. -/
def Reconnects (d : Dir) (host : String) (port : UInt16) (useVita49 : Bool) (o : Outside)
    (s : Session) : Prop :=
  if (s.client.sig d).isSome then
    let requests := sent s.requests (disconnectMap d)
    (o.server requests).ReportsError ∧
      ((o.server requests).result.success = true →
        Connects d host port useVita49 o requests)
  else Connects d host port useVita49 o s.requests

theorem refused_iff {P Q : Prop} (hr : b = false) : P ∧ (b = true → Q) ↔ P :=
  and_iff_left fun hs => absurd (hr.symm.trans hs) Bool.false_ne_true

theorem agreed_iff {P Q : Prop} (hr : b = true) (hp : P) : P ∧ (b = true → Q) ↔ Q :=
  (and_iff_right hp).trans ⟨fun h => h hr, fun h _ => h⟩

theorem sig_setSig (c : AVS4000Client) (p : Option Nat) (d : Dir) : (c.setSig p d).sig d = p := by
  cases d <;> rfl

theorem disconnect_eq (d : Dir) (o : Outside) (s : Session) :
    disconnect d o s = ((o.server (sent s.requests (disconnectMap d))).result,
      { client := s.client.setSig none d
        requests := sent s.requests (disconnectMap d)
        signals := deleteSignal s.signals (s.client.sig d) }) :=
  rfl

section
variable {d : Dir} {host : String} {port : UInt16} {useVita49 : Bool} {o : Outside} {s : Session}

theorem connectNew_refused (hn : s.client.sig d = none)
    (hr : (o.server (sent s.requests (connectMap d port useVita49))).result.success = false) :
    connectNew d host port useVita49 o s =
      ((o.server (sent s.requests (connectMap d port useVita49))).result,
        { s with requests := sent s.requests (connectMap d port useVita49) }) := by
  change (if (s.client.sig d).isNone then _ else _ : Api CallResult) o s = _
  rw [hn, if_pos Option.isNone_none]
  change (if (o.server (sent s.requests (connectMap d port useVita49))).result.success = true
    then _ else _ : Api CallResult) o _ = _
  rw [hr, if_neg Bool.false_ne_true]
  rfl

theorem connectNew_agreed (host : String) (hn : s.client.sig d = none)
    (hr : (o.server (sent s.requests (connectMap d port useVita49))).result.success = true) :
    ∃ r t, connectNew d host port useVita49 o s = (r, t) ∧
      r.success = (o.network (sent s.requests (connectMap d port useVita49))).socket ∧
      t.client.sig d = some s.signals.length ∧
      t.signals[s.signals.length]? = some (.tcpSignalClient
        (o.network (sent s.requests (connectMap d port useVita49))) host port) := by
  refine ⟨⟨_, none, (o.server (sent s.requests (connectMap d port useVita49))).result.error⟩,
    ⟨s.client.setSig (some s.signals.length) d, sent s.requests (connectMap d port useVita49),
      s.signals ++ [_]⟩, ?_, rfl, sig_setSig .., List.getElem?_concat_length⟩
  change (if (s.client.sig d).isNone then _ else _ : Api CallResult) o s = _
  rw [hn, if_pos Option.isNone_none]
  change (if (o.server (sent s.requests (connectMap d port useVita49))).result.success = true
    then _ else _ : Api CallResult) o _ = _
  rw [hr, if_pos rfl]
  rfl

theorem truthful_failure {t : Session} (hr : r.success = false) (hn : t.client.sig d = none) :
    Truthful d (r, t) ↔ r.FailureHasError := by
  constructor
  · intro h hs
    exact (h.2 hs).2
  · intro h
    exact ⟨fun hs => absurd (hr.symm.trans hs) (by decide), fun hs => ⟨hn, h hs⟩⟩

theorem truthful_installed {t : Session} {n : Network} (hr : r.success = n.socket)
    (hi : t.client.sig d = some i)
    (hc : t.signals[i]? = some (.tcpSignalClient n host port)) :
    Truthful d (r, t) ↔
      n.socket = true ∧ n.connect (SignalClient.addr n host) port = true := by
  constructor
  · intro h
    cases hsock : n.socket with
    | false =>
      obtain ⟨hnone, _⟩ := h.2 (hr.trans hsock)
      cases hnone.symm.trans hi
    | true =>
      obtain ⟨i', c, hi', hc', _, _, hattached⟩ := h.1 (hr.trans hsock)
      cases hi.symm.trans hi'
      cases hc.symm.trans hc'
      rw [SignalClient.tcpSignalClient, Bool.and_eq_true] at hattached
      exact ⟨rfl, hattached.2⟩
  · intro h
    obtain ⟨hsock, hconnect⟩ := h
    refine ⟨fun _ => ⟨i, _, hi, hc, rfl, hsock, ?_⟩, fun hs => ?_⟩
    · rw [SignalClient.tcpSignalClient, hsock, hconnect]
      rfl
    · cases (hr.trans hsock).symm.trans hs

theorem connectNew_truthful (hn : s.client.sig d = none) :
    Truthful d (connectNew d host port useVita49 o s) ↔
      Connects d host port useVita49 o s.requests := by
  have hfail := Outcome.failure (o.server (sent s.requests (connectMap d port useVita49)))
  cases hr : (o.server (sent s.requests (connectMap d port useVita49))).result.success with
  | false =>
    rw [connectNew_refused hn hr]
    exact (truthful_failure hr hn).trans (hfail.trans (refused_iff hr).symm)
  | true =>
    obtain ⟨r, t, heq, hrt, hi, hc⟩ := connectNew_agreed host hn hr
    have hreports := hfail.1 fun hs => absurd (hr.symm.trans hs) Bool.noConfusion
    rw [heq, truthful_installed hrt hi hc]
    exact (agreed_iff hr hreports).symm

end

/-- A connect tells the truth, and leaves nothing behind when it fails, exactly if every reply of
the server that is a failure reports an error, and the socket and its connection come about once
the server agrees. -/
theorem connect_truthful_iff (d : Dir) (host : String) (port : UInt16) (useVita49 : Bool)
    (o : Outside) (s : Session) :
    Truthful d (connectTcp d host port useVita49 o s) ↔
      Reconnects d host port useVita49 o s := by
  change Truthful d ((if (s.client.sig d).isSome then _ else _ : Api CallResult) o s) ↔ _
  rw [Reconnects]
  cases hsig : (s.client.sig d).isSome with
  | false =>
    rw [if_neg Bool.false_ne_true, if_neg Bool.false_ne_true]
    exact connectNew_truthful (Option.not_isSome_iff_eq_none.1 (Bool.eq_false_iff.1 hsig))
  | true =>
    have hfail := Outcome.failure (o.server (sent s.requests (disconnectMap d)))
    rw [if_pos rfl, if_pos rfl]
    change Truthful d ((if (disconnect d o s).1.success = true then _ else _ : Api CallResult) o
      (disconnect d o s).2) ↔ _
    rw [disconnect_eq]
    cases hr : (o.server (sent s.requests (disconnectMap d))).result.success with
    | false =>
      rw [if_neg Bool.false_ne_true]
      exact (truthful_failure hr (sig_setSig ..)).trans (hfail.trans (refused_iff hr).symm)
    | true =>
      have hreports := hfail.1 fun hs => absurd (hr.symm.trans hs) Bool.noConfusion
      rw [if_pos rfl]
      exact (connectNew_truthful (sig_setSig ..)).trans (agreed_iff hr hreports).symm

/-- The connection is refused, or there is no socket for it. -/
theorem failed_connection_installed : ∃ o o' : Outside,
    (connectTcp .rx "localhost" 12701 true o ⟨.new "localhost" 1, [], []⟩).1.success = true ∧
      ¬Truthful .rx (connectTcp .rx "localhost" 12701 true o ⟨.new "localhost" 1, [], []⟩) ∧
      ¬Truthful .tx (connectTcp .tx "localhost" 12801 true o' ⟨.new "localhost" 1, [], []⟩) := by
  let o : Outside := .answering fun _ => .list [.bool true]
  refine ⟨{ o with network := fun _ => ⟨true, fun _ => none, fun _ _ => false⟩ },
    { o with network := fun _ => ⟨false, fun _ => none, fun _ _ => false⟩ }, rfl, ?_, ?_⟩
  · intro h
    obtain ⟨i, c, hi, hc, _, _, hattached⟩ := h.1 rfl
    cases hi
    cases hc
    cases hattached
  · intro h
    cases (h.2 rfl).1

end AVS4000Client
end Avs4000
