import Avs4000.JSONErrors

namespace Avs4000
set_option autoImplicit true

/-- The text a C function is given. It ends at the first null character. -/
def qPrintable (s : String) : String := String.ofList (s.toList.takeWhile fun c => c.toNat != 0)

/-- The length of a `QString`, in units of UTF-16. -/
def utf16Length (s : String) : Nat :=
  s.toList.foldl (fun n c => n + if c.toNat < 0x10000 then 1 else 2) 0

def blanks (n : Nat) : String := String.ofList (List.replicate n ' ')

def leftJustified (s : String) (width : Nat) : String := s ++ blanks (width - utf16Length s)

def rightJustified (s : String) (width : Nat) : String := blanks (width - utf16Length s) ++ s

namespace TcpJSONClient

/-- The line `    %2d: %s`. -/
def errText (code text : QVariant) : String :=
  "    " ++ rightJustified (toString code.toInt.toInt) 2 ++ ": " ++ qPrintable text.toString ++ "\n"

/-- The line `    %-12s%s`. -/
def cmdText (name text : QVariant) : String :=
  "    " ++ leftJustified (qPrintable name.toString) 12 ++ qPrintable text.toString ++ "\n"

/-- The line of an entry. Its elements 0 and 1 are taken without a look at its length, and there is
no line where one of them is out of range. -/
def line (text : QVariant → QVariant → String) (entry : List QVariant) : Option String := do
  let first ← entry[0]?
  let second ← entry[1]?
  return text first second

/-- The `foreach` over the list, which ends early only at an index out of range. -/
def listLoop (text : QVariant → QVariant → String) : List QVariant → String → Option String
  | [], out => some out
  | var :: list, out => do
    let line ← line text var.toList
    listLoop text list (out ++ line)

def errorText (ec : UInt32) (estr : String) : String :=
  "Error " ++ toString ec.toNat ++ ": " ++ qPrintable estr

/-- A command that lists what the server sends. `ec` is what the variable for the error code holds
before anything is assigned to it. -/
def listCmd (cmd title : String) (text : QVariant → QVariant → String) (call : CallFn)
    (ec : UInt32) : Option String :=
  let r := call cmd .invalid
  if r.success then listLoop text (r.rval.getD .invalid).toList title
  else
    let error := r.error.getD (ec, "")
    some (errorText error.1 error.2)

def getErrCmd (call : CallFn) (ec : UInt32) : Option String :=
  listCmd "GETERR" "Error Info:\n" errText call ec

def getCmdCmd (call : CallFn) (ec : UInt32) : Option String :=
  listCmd "GETCMD" "Available Commands:\n" cmdText call ec

/-- The list has the two elements of an entry. -/
def WellFormed (entry : QVariant) : Prop := 2 ≤ entry.toList.length

instance (entry : QVariant) : Decidable (WellFormed entry) :=
  inferInstanceAs (Decidable (2 ≤ entry.toList.length))

def entryText (text : QVariant → QVariant → String) (entry : QVariant) : String :=
  text (entry.toList.getD 0 .invalid) (entry.toList.getD 1 .invalid)

/-- One line for each well-formed entry, in their order. -/
def entryLines (text : QVariant → QVariant → String) (list : List QVariant) : List String :=
  (list.filter fun e => decide (WellFormed e)).map (entryText text)

/-- A listing of a payload is complete, under its title. -/
def Listed (title : String) (text : QVariant → QVariant → String) (payload : QVariant)
    (out : Option String) : Prop :=
  out = some (title ++ String.join (entryLines text payload.toList))

/-- The payload of what a call hands back. -/
def payload (r : CallResult) : QVariant := r.rval.getD .invalid

/-- Where the payload is a list, all of its elements are entries. -/
def EntriesFormed (payload : QVariant) : Prop := ∀ e ∈ payload.toList, WellFormed e

@[simp] theorem entryLines_nil : entryLines text [] = [] := rfl

theorem entryLines_cons (h : WellFormed e) :
    entryLines text (e :: list) = entryText text e :: entryLines text list := by
  rw [entryLines, List.filter_cons_of_pos (p := fun e => decide (WellFormed e)) (decide_eq_true h)]
  rfl

theorem WellFormed.elements (h : WellFormed e) :
    ∃ first second rest, e.toList = first :: second :: rest := by
  unfold WellFormed at h
  generalize e.toList = list at h
  rcases list with _ | ⟨first, _ | ⟨second, rest⟩⟩
  · cases h
  · exact absurd h (Nat.not_le_of_lt (Nat.lt_succ_self 1))
  · exact ⟨first, second, rest, rfl⟩

theorem line_eq_some (h : WellFormed e) : line text e.toList = some (entryText text e) := by
  obtain ⟨first, second, rest, he⟩ := h.elements
  rw [entryText, he]
  rfl

theorem line_eq_none (h : ¬WellFormed e) : line text e.toList = none := by
  unfold WellFormed at h
  generalize e.toList = list at h
  rcases list with _ | ⟨first, _ | ⟨second, rest⟩⟩
  · rfl
  · rfl
  · exact absurd (Nat.le_add_left 2 rest.length) h

theorem listLoop_formed (out : String) (h : ∀ e ∈ list, WellFormed e) :
    listLoop text list out = some (out ++ String.join (entryLines text list)) := by
  induction list generalizing out with
  | nil =>
    rw [listLoop, entryLines_nil, String.join_nil, String.append_empty]
  | cons e list ih =>
    have he : WellFormed e := h e (List.mem_cons_self ..)
    have hlist : ∀ e ∈ list, WellFormed e := fun e he => h e (List.mem_cons_of_mem _ he)
    rw [listLoop, line_eq_some he, Option.bind_eq_bind, Option.bind_some, ih _ hlist,
      entryLines_cons he, String.join_cons, String.append_assoc]

theorem listLoop_not_formed (out : String) (hm : e ∈ list) (h : ¬WellFormed e) :
    listLoop text list out = none := by
  induction list generalizing out with
  | nil => exact absurd hm List.not_mem_nil
  | cons e' list ih =>
    rw [listLoop]
    by_cases he : WellFormed e'
    · have hm' : e ∈ list := by
        apply (List.mem_cons.1 hm).resolve_left
        rintro rfl
        exact h he
      rw [line_eq_some he]
      exact ih _ hm'
    · rw [line_eq_none he]
      rfl

theorem listCmd_listed_iff {call : CallFn} (hs : (call cmd .invalid).success = true) :
    Listed title text (payload (call cmd .invalid)) (listCmd cmd title text call ec) ↔
      EntriesFormed (payload (call cmd .invalid)) := by
  have hcmd : listCmd cmd title text call ec =
      listLoop text (payload (call cmd .invalid)).toList title := if_pos hs
  rw [Listed, hcmd]
  constructor
  · intro hl e hm
    apply Classical.byContradiction
    intro he
    rw [listLoop_not_formed title hm he] at hl
    cases hl
  · exact listLoop_formed title

/-- `Call` with a server, or what comes of the wait for it, at the other end. -/
def callServer (server : List QVariant → Outcome) : CallFn :=
  fun cmd arg => (server (callReq cmd arg)).result

/-- Whatever comes back by a successful call, the listings are complete exactly if there is no
entry too short for its line. -/
theorem listings_complete_iff (server : List QVariant → Outcome) (ec : UInt32) :
    let errs := callServer server "GETERR" .invalid
    let cmds := callServer server "GETCMD" .invalid
    (errs.success = true →
      (Listed "Error Info:\n" errText (payload errs) (getErrCmd (callServer server) ec) ↔
        EntriesFormed (payload errs))) ∧
    (cmds.success = true →
      (Listed "Available Commands:\n" cmdText (payload cmds) (getCmdCmd (callServer server) ec) ↔
        EntriesFormed (payload cmds))) :=
  ⟨listCmd_listed_iff, listCmd_listed_iff⟩

/-- What comes of a command without an argument that the server answers by success and `v`. -/
def answered (cmd : String) (v : QVariant) : Outcome :=
  .reply (some ⟨JSONSystem.init.newRequest (.user 0) cmd .invalid, .list [.bool true, v]⟩)

theorem no_response_listed :
    let errs : QVariant := .list [.list [.ofUInt 5, .string "Invalid"],
      .list [.ofUInt 15, .string "No Response"]]
    let cmds : QVariant := .list [.list [.string "GET", .string "Get", .null],
      .list [.string "SET", .string "Set"]]
    Listed "Error Info:\n" errText errs
      (getErrCmd (callServer fun _ => answered "GETERR" errs) 0) ∧
    Listed "Available Commands:\n" cmdText cmds
      (getCmdCmd (callServer fun _ => answered "GETCMD" cmds) 0) := by
  intro errs cmds
  constructor
  · apply ((listings_complete_iff (fun _ => answered "GETERR" errs) 0).1 rfl).2
    intro e he
    rcases List.mem_cons.1 he with rfl | he
    · exact Nat.le_refl 2
    · rw [List.mem_singleton.1 he]
      exact Nat.le_refl 2
  · apply ((listings_complete_iff (fun _ => answered "GETCMD" cmds) 0).2 rfl).2
    intro e he
    rcases List.mem_cons.1 he with rfl | he
    · exact Nat.le_succ 2
    · rw [List.mem_singleton.1 he]
      exact Nat.le_refl 2

example : getErrCmd (callServer fun _ => answered "GETERR" (.list [.list [.ofUInt 5, .string
    "Invalid"], .list [.string "16", .bool true, .null]])) 0 =
      some "Error Info:\n     5: Invalid\n    16: true\n" := by decide

/-- An entry with a code and no text. -/
theorem short_entry_not_listed : ∃ v : QVariant,
    ¬Listed "Error Info:\n" errText v (getErrCmd (callServer fun _ => answered "GETERR" v) 0) ∧
    ¬Listed "Available Commands:\n" cmdText v
      (getCmdCmd (callServer fun _ => answered "GETCMD" v) 0) := by
  refine ⟨.list [.list [.ofUInt 15]], fun h => ?_, fun h => ?_⟩
  · cases h
  · cases h

end TcpJSONClient
end Avs4000
