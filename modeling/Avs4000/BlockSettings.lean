import Avs4000.JSONCommands
import Avs4000.Lib.Log
import Avs4000.Lib.Run
import Avs4000.SignalConnect

namespace Avs4000
open Log Sys
set_option autoImplicit true

/-- The value of a parameter in a map of groups. -/
def valueIn (map : List (String × QVariant)) (grp name : String) : Option QVariant :=
  (map.lookup grp).bind fun v => v.toMap.lookup name

/-- The value a request sets a parameter to. -/
def settingOf (req : List QVariant) (grp name : String) : Option QVariant :=
  match req with
  | [.string cmd, arg] => if cmd = "SET" then valueIn arg.toMap grp name else none
  | _ => none

/-- The value of a parameter in the last request for which `Call` has reported success. -/
def granted (o : Outside) (grp name : String) (requests : List (List QVariant)) :
    Option QVariant :=
  replay (fun sent => (o.server sent).result.success)
    (fun req v => (settingOf req grp name).or v) none requests

/-- A request sets parameters of some groups only. -/
def SetsOnly (grps : List String) (req : List QVariant) : Prop :=
  ∀ grp name, grp ∉ grps → settingOf req grp name = none

theorem SetsOnly.mono (h : SetsOnly grps req) (hs : ∀ grp ∈ grps, grp ∈ grps') :
    SetsOnly grps' req :=
  fun grp name hg => h grp name fun hm => hg (hs grp hm)

theorem granted_concat (o : Outside) (grp name : String) (requests : List (List QVariant))
    (req : List QVariant) :
    granted o grp name (requests ++ [req]) =
      if (o.server (requests ++ [req])).result.success then
        (settingOf req grp name).or (granted o grp name requests)
      else granted o grp name requests :=
  replay_concat ..

theorem granted_skip {sent : List (List QVariant)} (h : ∀ req ∈ sent, SetsOnly grps req)
    (hg : grp ∉ grps) (name : String) (o : Outside) (requests : List (List QVariant)) :
    granted o grp name (requests ++ sent) = granted o grp name requests :=
  replay_skip fun req hr v => by rw [h req hr grp name hg, Option.none_or]

/-- The functions of a client that call the server, and set parameters of some groups only. -/
abbrev Calls.SetsOnly (grps : List String) (m : Calls α) : Prop :=
  Appends id (Avs4000.SetsOnly grps) m

theorem lookup_ne {m : List (String × QVariant)} (h : ∀ g v, (g, v) ∈ m → g ≠ grp) :
    m.lookup grp = none := by
  induction m with
  | nil => rfl
  | cons e m ih =>
    have he : (grp == e.1) = false :=
      beq_eq_false_iff_ne.2 (h e.1 e.2 (List.mem_cons_self ..)).symm
    rw [List.lookup_cons, he]
    exact ih fun g v hm => h g v (List.mem_cons_of_mem _ hm)

theorem setsOnly_group (grp : String) (v : QVariant) :
    SetsOnly [grp] (callReq "SET" (.map [(grp, v)])) := by
  intro g name hg
  change valueIn [(grp, v)] g name = none
  rw [valueIn, lookup_ne, Option.bind_none]
  intro g' v' hm
  cases List.mem_singleton.1 hm
  exact fun he => hg (List.mem_singleton.2 he.symm)

namespace TcpJSONClient

end TcpJSONClient

namespace AVS4000Client
open TcpJSONClient

end AVS4000Client
namespace SyncBlock
open TcpJSONClient AVS4000Client
variable {P : Type} {s t u : SyncBlock P}

/-- The server is called, with nothing to set outside of some groups. -/
structure Sent (grps : List String) (s t : SyncBlock P) : Prop extends SameSignals s t where
  params : t.params = s.params
  requests : ∃ sent, t.requests = s.requests ++ sent ∧ ∀ req ∈ sent, SetsOnly grps req

theorem Sent.trans (h : Sent grps s t) (h' : Sent grps t u) : Sent grps s u := by
  obtain ⟨sent, hs, hsent⟩ := h.requests
  obtain ⟨more, hm, hmore⟩ := h'.requests
  refine ⟨h.toSameSignals.trans h'.toSameSignals, h'.params.trans h.params, sent ++ more, ?_,
    fun req hr => ?_⟩
  · rw [hm, hs, List.append_assoc]
  · exact (List.mem_append.1 hr).elim (hsent req) (hmore req)

theorem Sent.mono (h : Sent grps s t) (hg : ∀ grp ∈ grps, grp ∈ grps') : Sent grps' s t := by
  obtain ⟨sent, hs, hsent⟩ := h.requests
  exact ⟨h.toSameSignals, h.params, sent, hs, fun req hr => (hsent req hr).mono hg⟩

theorem Sent.granted (h : Sent grps s t) (hg : grp ∉ grps) (o : Outside) (name : String) :
    granted o grp name t.requests = granted o grp name s.requests := by
  obtain ⟨sent, hs, hsent⟩ := h.requests
  rw [hs, granted_skip hsent hg]

theorem calls_eq (hc : s.client.isSome) (m : Calls α) :
    Ends (onClient m.lift) o s fun a t =>
      a = (m o s.requests).1 ∧ t = { s with requests := (m o s.requests).2 } := by
  obtain ⟨c, hc⟩ := Option.isSome_iff_exists.1 hc
  apply onClient_ends hc
  intro a c' requests signals h
  cases h
  rw [hc]
  exact ⟨rfl, rfl⟩

theorem set_ends (hc : s.client.isSome) (map : List (String × QVariant)) :
    Ends (onClient (entry (.set map)).lift) o s fun r t =>
      r = (o.server (sent s.requests map)).result ∧
        t = { s with requests := sent s.requests map } := by
  apply (calls_eq hc _).mono
  rintro r t ⟨rfl, rfl⟩
  exact ⟨rfl, rfl⟩

theorem granted_sent (o : Outside) (grp name : String) (requests : List (List QVariant))
    (map : List (String × QVariant)) :
    granted o grp name (sent requests map) =
      if (o.server (sent requests map)).result.success then
        (valueIn map grp name).or (granted o grp name requests)
      else granted o grp name requests :=
  granted_concat ..

/-- What is set when a block has been started: where the data goes, and that it does. -/
def flowOn (port : UInt16) (grp : List (String × QVariant)) :
    List (String × QVariant) :=
  ("Run", .bool true) :: grp ++ [("ConEnable", .bool true), ("ConType", .string "tcp"),
    ("ConPort", .ofUInt port.toUInt32), ("UseV49", .bool true), ("UseBE", .bool false)]

def flowOff : List (String × QVariant) := [("Run", .bool false), ("ConEnable", .bool false)]

/-- What is listed has been granted. -/
def Grants (o : Outside) (grp : String) (list : List (String × QVariant))
    (requests : List (List QVariant)) : Prop :=
  ∀ name v, list.lookup name = some v → granted o grp name requests = some v

theorem valueIn_self (grp : String) (list : List (String × QVariant)) (name : String) :
    valueIn [(grp, .map list)] grp name = list.lookup name := by
  rw [valueIn, List.lookup_cons, beq_self_eq_true]
  rfl

/-- What `start` does to the settings of the block, and those of the data. -/
structure StartSent (d : Dir) (o : Outside) (map flow : List (String × QVariant)) (rval : Bool)
    (s t : SyncBlock P) : Prop where
  client : t.client.isSome
  params : t.params = s.params
  settings : ∀ grp name, grp ∉ [d.data, "ref"] →
    rval = false ∧ granted o grp name t.requests = granted o grp name s.requests ∨
      granted o grp name t.requests =
        (valueIn map grp name).or (granted o grp name s.requests)
  flow : rval = true → Grants o d.data flow t.requests

theorem Sent.isSome (h : Sent grps s t) (hc : s.client.isSome) : t.client.isSome :=
  h.client ▸ hc

/-- What `stop` does to the settings. -/
structure StopSent (d : Dir) (o : Outside) (rval : Bool) (s t : SyncBlock P) : Prop where
  params : t.params = s.params
  settings : ∀ grp name, grp ≠ d.data →
    granted o grp name t.requests = granted o grp name s.requests
  flow : rval = true → s.client.isSome → Grants o d.data flowOff t.requests
  null : s.client = none → t = s

theorem setsOnly_sent (d : Dir) (grp : List (String × QVariant)) :
    ∀ req ∈ [callReq "SET" (.map [(d.data, .map grp)])], SetsOnly [d.data] req := by
  intro req hr
  cases List.mem_singleton.1 hr
  exact setsOnly_group d.data _

theorem granted_data (d : Dir) (list : List (String × QVariant)) (hg : grp ≠ d.data)
    (name : String) (o : Outside) (requests : List (List QVariant)) :
    granted o grp name (sent requests [(d.data, .map list)]) = granted o grp name requests :=
  granted_skip (setsOnly_sent d list) (fun hm => hg (List.mem_singleton.1 hm)) name o requests

theorem disconnect_sent (d : Dir) {client : Option AVS4000Client} (hc : client = some c) :
    Ends (onClient (disconnect d)) o { s with client := client, requests := reqs } fun r u =>
      u.params = s.params ∧ u.requests = sent reqs (disconnectMap d) ∧
        r = (o.server u.requests).result := by
  apply onClient_ends hc
  intro r c' requests signals h
  rw [disconnect_eq] at h
  cases h
  exact ⟨rfl, rfl, rfl⟩

theorem flowOff_disconnected (d : Dir) (hv : flowOff.lookup name = some v) :
    ((("ConEnable", QVariant.bool false) :: d.runOff).lookup name).or (flowOff.lookup name) =
      some v := by
  rw [hv]
  cases d with
  | rx =>
    simp only [flowOff, Dir.runOff, List.lookup_cons, List.lookup_nil] at hv ⊢
    cases hrun : name == "Run" <;> cases hcon : name == "ConEnable" <;> simp_all
  | tx =>
    simp only [flowOff, Dir.runOff, List.lookup_cons, List.lookup_nil] at hv ⊢
    cases hrun : name == "Run" <;> cases hcon : name == "ConEnable" <;> simp_all

theorem stop_sent (d : Dir) (o : Outside) (s : SyncBlock P) :
    Ends (SyncBlock.stop d) o s fun rval t => StopSent d o rval s t := by
  cases hc : s.client with
  | none =>
    rw [SyncBlock.stop, ends_get, hc, Option.isSome_none, if_neg Bool.false_ne_true]
    apply ends_pure
    refine ⟨rfl, fun _ _ _ => rfl, fun _ h => ?_, fun _ => rfl⟩
    rw [hc] at h
    cases h
  | some c =>
    have hsome : s.client.isSome := hc ▸ rfl
    have hnull : s.client ≠ none := fun h => (by cases hc.symm.trans h)
    rw [SyncBlock.stop, ends_get, if_pos hsome]
    apply (set_ends hsome [(d.data, .map flowOff)]).bind
    rintro _ t ⟨rfl, rfl⟩
    cases hr : (o.server (sent s.requests [(d.data, .map flowOff)])).result.success with
    | false =>
      rw [if_neg Bool.false_ne_true]
      apply (ends_pure (Q := fun r u => r.success = false ∧ u = _) ⟨hr, rfl⟩).bind
      rintro r _ ⟨hf, rfl⟩
      apply (ends_modify (Q := fun _ u => StopSent d o false s u)
        ⟨rfl, fun g name hg => granted_data d _ hg name o _, fun h => (by cases h),
          fun h => absurd h hnull⟩).bind
      intro _ u hu
      exact ends_pure (hf ▸ hu)
    | true =>
      rw [if_pos rfl]
      apply (disconnect_sent d hc).bind
      rintro r u ⟨hparams, hreq, hres⟩
      apply (ends_modify (Q := fun _ v => StopSent d o r.success s v) ?_).bind
      · intro _ v hv
        exact ends_pure hv
      · refine ⟨hparams, fun g name hg => ?_, fun hs _ name v hv => ?_, fun h => absurd h hnull⟩
        · change granted o g name u.requests = _
          rw [hreq, disconnectMap, granted_data d _ hg, granted_data d _ hg]
        · change granted o d.data name u.requests = some v
          rw [hres, hreq] at hs
          rw [hreq, granted_sent, if_pos hs, granted_sent, if_pos hr, disconnectMap,
            valueIn_self, valueIn_self, ← Option.or_assoc, flowOff_disconnected d hv]
          rfl

end SyncBlock

end Avs4000
