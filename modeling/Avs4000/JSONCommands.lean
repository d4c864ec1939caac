import Avs4000.AVS4000Client
import Avs4000.Lib.Split

namespace Avs4000
set_option autoImplicit true

namespace TcpJSONClient

/-- `SetCmd` of a map. It gives the text to show. -/
def setCmdMap (map : List (String × QVariant)) : Calls String := do
  let r ← entry (.call "SET" (.map map))
  return if r.success then "Set" else (r.error.map Prod.snd).getD ""

/-- `SetCmd` of a parameter. It splits the name only if there is a dot in it. -/
def setCmd (param : String) (val : QVariant) : Calls String :=
  if param.contains '.' then
    let list := param.splitOn "."
    let g := list.getD 0 ""
    let p := list.getD 1 ""
    setCmdMap [(g, .map [(p, val)])]
  else pure "Invalid group.parameter name"

/-- The name is `group.name`, with one dot and two parts that are not empty. -/
structure GroupName (param group name : String) : Prop extends Split.Pair '.' param group name where
  group_ne : group.length ≠ 0
  name_ne : name.length ≠ 0

/-- The request that sets a parameter of a group. -/
def setReq (group name : String) (val : QVariant) : List QVariant :=
  callReq "SET" (.map [(group, .map [(name, val)])])

/-- The two functions send the same request for `group.name`, and for any other string they send
nothing and report failure. -/
def PathsAgree (o : Outside) (requests : List (List QVariant)) (param : String) (val : QVariant) :
    Prop :=
  let r := entry (.setParam param val) o requests
  let c := setCmd param val o requests
  (∀ g p, GroupName param g p →
    r.2 = requests ++ [setReq g p val] ∧ c.2 = requests ++ [setReq g p val]) ∧
  ((¬∃ g p, GroupName param g p) →
    r.2 = requests ∧ c.2 = requests ∧ r.1.success = false ∧ c.1 ≠ "Set")

theorem GroupName.splitOn {param : String} (h : GroupName param g p) :
    param.splitOn "." = [g, p] :=
  h.toPair.splitOn

theorem GroupName.dot {param : String} (h : GroupName param g p) : '.' ∈ param.toList := by
  rw [h.eq]
  exact List.mem_append_right _ (List.mem_cons_self ..)

theorem entry_none (h : CallEntry.request e = none) :
    entry e o requests = (refused, requests) := by
  rw [entry, CallEntry.run_eq, h]
  exact congrArg (refused, ·) (List.append_nil requests)

theorem entry_snd (h : CallEntry.request e = some r) :
    (entry e o requests).2 = requests ++ [callReq r.1 r.2] := by
  rw [entry, h]
  rfl

theorem setParam_request {param : String} (h : param.splitOn "." = [g, p]) (val : QVariant) :
    (CallEntry.setParam param val).request =
      if g.length = 0 ∨ p.length = 0 then none else some ("SET", .map [(g, .map [(p, val)])]) := by
  rw [CallEntry.request, h]

theorem setCmd_none {param : String} (h : '.' ∉ param.toList) (val : QVariant) :
    setCmd param val o requests = ("Invalid group.parameter name", requests) := by
  rw [setCmd, String.contains_char_eq, decide_eq_false h]
  rfl

theorem setCmd_snd {param : String} (hd : '.' ∈ param.toList)
    (h : param.splitOn "." = g :: p :: rest) (val : QVariant) :
    (setCmd param val o requests).2 = requests ++ [setReq g p val] := by
  rw [setCmd, String.contains_char_eq, decide_eq_true hd, h]
  rfl

theorem not_pathsAgree {param : String} (hn : ¬∃ g p, GroupName param g p)
    (hd : '.' ∈ param.toList) (h : param.splitOn "." = g :: p :: rest) :
    ¬PathsAgree o requests param val := by
  intro ha
  have hsame := (ha.2 hn).2.1
  rw [setCmd_snd hd h] at hsame
  have hlen := congrArg List.length hsame
  rw [List.length_append] at hlen
  exact absurd hlen (Nat.succ_ne_self _)

/-- The two ways to set a parameter agree exactly on the strings that have no dot, or one with
something on both sides of it. -/
theorem paths_agree_iff (o : Outside) (requests : List (List QVariant)) (param : String)
    (val : QVariant) :
    PathsAgree o requests param val ↔ '.' ∉ param.toList ∨ ∃ g p, GroupName param g p := by
  rcases Split.splitOn_cases param '.' with hd | ⟨g, p, hp⟩ | ⟨hd, g, p, q, rest, hs⟩
  · have hsplit : param.splitOn "." = [param] := Split.splitOn_single hd
    have hreq : (CallEntry.setParam param val).request = none := by
      rw [CallEntry.request, hsplit]
    have htext : "Invalid group.parameter name" ≠ "Set" := by decide
    refine ⟨fun _ => .inl hd, fun _ => ⟨fun g p h => absurd h.dot hd, fun _ => ?_⟩⟩
    rw [entry_none hreq, setCmd_none hd]
    exact ⟨rfl, rfl, rfl, htext⟩
  · have hsplit : param.splitOn "." = [g, p] := hp.splitOn
    have hdot : '.' ∈ param.toList := by
      rw [hp.eq]
      exact List.mem_append_right _ (List.mem_cons_self ..)
    have hreq := setParam_request hsplit val
    by_cases hne : g.length = 0 ∨ p.length = 0
    · have hn : ¬∃ g p, GroupName param g p := by
        rintro ⟨g', p', h⟩
        cases hsplit.symm.trans h.splitOn
        exact hne.elim h.group_ne h.name_ne
      exact ⟨fun ha => absurd ha (not_pathsAgree hn hdot hsplit),
        fun h => (h.elim (absurd hdot) hn).elim⟩
    · rw [not_or] at hne
      have hname : GroupName param g p := ⟨hp, hne.1, hne.2⟩
      rw [if_neg (not_or.2 hne)] at hreq
      refine ⟨fun _ => .inr ⟨g, p, hname⟩, fun _ => ⟨fun g' p' h => ?_, fun hn => ?_⟩⟩
      · cases hsplit.symm.trans h.splitOn
        exact ⟨entry_snd hreq, setCmd_snd hdot hsplit val⟩
      · exact absurd ⟨g, p, hname⟩ hn
  · have hsplit : param.splitOn "." = g :: p :: q :: rest := hs
    have hn : ¬∃ g p, GroupName param g p := by
      rintro ⟨g', p', h⟩
      cases hsplit.symm.trans h.splitOn
    exact ⟨fun ha => absurd ha (not_pathsAgree hn hd hsplit),
      fun h => (h.elim (absurd hd) hn).elim⟩

/-- With a second dot in the name the parameter before it is set. -/
theorem second_dot_ignored : ∃ o requests, ¬PathsAgree o requests "rx.gain.max" (.bool true) := by
  have hs : "rx.gain.max".splitOn "." = ["rx", "gain", "max"] := Split.splitOn_eq _ '.'
  have hn : ¬∃ g p, GroupName "rx.gain.max" g p := by
    rintro ⟨g, p, h⟩
    cases hs.symm.trans h.splitOn
  have hd : '.' ∈ "rx.gain.max".toList := by decide
  exact ⟨⟨fun _ => .noResponse, fun _ => ⟨false, fun _ => none, fun _ _ => false⟩, fun _ => true,
    fun _ => .eq⟩, [], not_pathsAgree hn hd hs⟩

end TcpJSONClient
end Avs4000
