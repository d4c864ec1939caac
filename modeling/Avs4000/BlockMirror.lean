import Avs4000.BlockSettings

namespace Avs4000
open Log Sys
set_option autoImplicit true

namespace SyncBlock
open TcpJSONClient AVS4000Client
variable {P : Type} {s t u : SyncBlock P}

/-- A function that sets a parameter: `SetRate` and so on. -/
structure Setter (P : Type) where
  grp : String
  name : String
  ecode : Option UInt32
  val : QVariant
  assign : P → P
  formed : GroupName (grp ++ "." ++ name) grp name

def Setter.run (x : Setter P) : Op P Bool := setParam x.grp x.name x.ecode x.val x.assign

/-- What it has the server set. -/
def Setter.map (x : Setter P) : List (String × QVariant) := [(x.grp, .map [(x.name, x.val)])]

/-- The request has failed, and what there is as an error code says that the client is busy. -/
def Setter.TakenAsBusy (x : Setter P) (o : Outside) (s : SyncBlock P) : Prop :=
  let r := (o.server (sent s.requests x.map)).result
  r.success = false ∧ ∃ code, x.ecode = some code ∧ (r.error.map Prod.fst).getD code = apiBusy

theorem Setter.run_ends (x : Setter P) (hc : s.client.isSome) :
    Ends x.run o s fun _ t => t.requests = sent s.requests x.map ∧
      (t.params = x.assign s.params ∧
          ((o.server t.requests).result.success = true ∨ x.TakenAsBusy o s) ∨
        t.params = s.params ∧ (o.server t.requests).result.success = false) := by
  rw [run, setParam]
  have hreq : (CallEntry.setParam (x.grp ++ "." ++ x.name) x.val).request =
      some ("SET", .map x.map) := by
    rw [setParam_request x.formed.splitOn,
      if_neg (not_or.2 ⟨x.formed.group_ne, x.formed.name_ne⟩)]
    rfl
  have hcall : Ends (onClient (entry (.setParam (x.grp ++ "." ++ x.name) x.val)).lift) o s
      fun r t => r = (o.server (sent s.requests x.map)).result ∧
        t = { s with requests := sent s.requests x.map } := by
    apply (calls_eq hc _).mono
    rintro r t ⟨rfl, rfl⟩
    refine ⟨?_, ?_⟩
    · rw [entry, CallEntry.run_eq, hreq]
      rfl
    · rw [entry_snd hreq]
      rfl
  apply hcall.bind
  rintro _ t ⟨rfl, rfl⟩
  cases hr : (o.server (sent s.requests x.map)).result.success with
  | true =>
    rw [Bool.true_or, if_pos rfl]
    apply (ends_modify (Q := fun _ u => u = { s with
      requests := sent s.requests x.map, params := x.assign s.params }) rfl).bind
    rintro _ _ rfl
    exact ends_pure ⟨rfl, .inl ⟨rfl, .inl hr⟩⟩
  | false =>
    rw [Bool.false_or]
    split
    · next hbusy =>
      obtain ⟨code, hcode, he⟩ := (Option.any_eq_true _ _).1 hbusy
      apply (ends_modify (Q := fun _ u => u = { s with
        requests := sent s.requests x.map, params := x.assign s.params }) rfl).bind
      rintro _ _ rfl
      exact ends_pure ⟨rfl, .inl ⟨rfl, .inr ⟨hr, code, hcode, beq_iff_eq.1 he⟩⟩⟩
    · exact ends_pure ⟨rfl, .inr ⟨rfl, hr⟩⟩

/-- The server is asked, and what the block would set stays as it is. -/
structure Works (view : P → List (String × QVariant) × List (String × QVariant))
    (s t : SyncBlock P) : Prop extends SameSignals s t where
  view : view t.params = view s.params
  requests : ∃ sent, t.requests = s.requests ++ sent ∧ ∀ req ∈ sent, SetsOnly [] req

section
variable {view : P → List (String × QVariant) × List (String × QVariant)}

theorem Works.refl (s : SyncBlock P) : Works view s s :=
  ⟨.refl s, rfl, [], (List.append_nil _).symm, fun _ hr => absurd hr List.not_mem_nil⟩

theorem Works.trans (h : Works view s t) (h' : Works view t u) : Works view s u := by
  obtain ⟨sent, hs, hsent⟩ := h.requests
  obtain ⟨more, hm, hmore⟩ := h'.requests
  refine ⟨h.toSameSignals.trans h'.toSameSignals, h'.view.trans h.view, sent ++ more, ?_,
    fun req hr => ?_⟩
  · rw [hm, hs, List.append_assoc]
  · exact (List.mem_append.1 hr).elim (hsent req) (hmore req)

theorem Works.granted (h : Works view s t) (o : Outside) (grp name : String) :
    granted o grp name t.requests = granted o grp name s.requests := by
  obtain ⟨sent, hs, hsent⟩ := h.requests
  rw [hs, granted_skip hsent List.not_mem_nil]

end

end SyncBlock

/-- What `start` sets for the block, and what there is to know of its data. -/
def RxParams.view (p : RxParams) : List (String × QVariant) × List (String × QVariant) :=
  (Avs4000Rx.startMap p, SyncBlock.flowOn (UInt16.ofInt (12700 + p.dn))
    [("TestPattern", .bool p.useTestPattern)])

def TxParams.view (p : TxParams) : List (String × QVariant) × List (String × QVariant) :=
  (Avs4000Tx.startMap p, SyncBlock.flowOn (UInt16.ofInt (12800 + p.dn)) [])

namespace SyncBlock
open TcpJSONClient AVS4000Client

end SyncBlock

theorem groupName_of {grp name : String} (hg : '.' ∉ grp.toList) (hn : '.' ∉ name.toList)
    (hg' : grp.length ≠ 0) (hn' : name.length ≠ 0) :
    TcpJSONClient.GroupName (grp ++ "." ++ name) grp name := by
  refine ⟨⟨hg, hn, ?_⟩, hg', hn'⟩
  rw [String.toList_append, String.toList_append, List.append_assoc]
  rfl

open SyncBlock in
def RxSet.setter : RxSet → Setter RxParams
  | .rate r => ⟨"rx", "SampleRate", none, r, fun p => { p with rate := r },
      groupName_of (by decide) (by decide) (by decide) (by decide)⟩
  | .rxFreq ecode freq => ⟨"rx", "Freq", some ecode, freq, fun p => { p with rxFreq := freq },
      groupName_of (by decide) (by decide) (by decide) (by decide)⟩
  | .rxGain ecode rfGain => ⟨"rx", "Gain", some ecode, rfGain, fun p => { p with rfGain := rfGain },
      groupName_of (by decide) (by decide) (by decide) (by decide)⟩
  | .ddcFreq freq => ⟨"ddc", "Freq", none, freq, fun p => { p with ddcFreq := freq },
      groupName_of (by decide) (by decide) (by decide) (by decide)⟩
  | .ddcOutGain val => ⟨"ddc", "OutGain", none, val, fun p => { p with ddcOutGain := val },
      groupName_of (by decide) (by decide) (by decide) (by decide)⟩

open SyncBlock in
def TxSet.setter : TxSet → Setter TxParams
  | .rate r => ⟨"tx", "SampleRate", none, r, fun p => { p with rate := r },
      groupName_of (by decide) (by decide) (by decide) (by decide)⟩
  | .txFreq ecode freq => ⟨"tx", "Freq", some ecode, freq, fun p => { p with txFreq := freq },
      groupName_of (by decide) (by decide) (by decide) (by decide)⟩
  | .ducFreq freq => ⟨"duc", "Freq", none, freq, fun p => { p with ducFreq := freq },
      groupName_of (by decide) (by decide) (by decide) (by decide)⟩
  | .ducOutGain val => ⟨"duc", "OutGain", none, val, fun p => { p with ducOutGain := val },
      groupName_of (by decide) (by decide) (by decide) (by decide)⟩

/-- The server has answered with success. -/
def Outcome.confirms (o : Outcome) : Bool :=
  match o with
  | .busy => false
  | _ => o.result.success

namespace BlockSystem
open SyncBlock AVS4000Client

/-- A block whose parameters are those that it has the server set. -/
structure Mirrors (dev : Device P W S) (d : Dir)
    (view : P → List (String × QVariant) × List (String × QVariant)) (setter : S → Setter P) :
    Prop where
  start (o : Outside) (s : SyncBlock P) : Ends dev.start o s fun rval t =>
    StartSent d o (view s.params).1 (view s.params).2 rval s t
  stop : dev.stop = SyncBlock.stop d
  work (o : Outside) (s : SyncBlock P) (w : W) : Ends (dev.work w) o s fun _ t => Works view s t
  set (x : S) : dev.set x = discard (setter x).run
  grp (p : P) (grp name : String) :
    valueIn (view p).1 grp name ≠ none → grp ∉ [d.data, "ref"]
  setGrp (x : S) : (setter x).grp ∉ [d.data, "ref"]
  other (x : S) (p : P) (grp name : String) : ¬(grp = (setter x).grp ∧ name = (setter x).name) →
    valueIn (view ((setter x).assign p)).1 grp name = valueIn (view p).1 grp name
  own (x : S) (p : P) (v : QVariant) :
    valueIn (view ((setter x).assign p)).1 (setter x).grp (setter x).name = some v →
      v = (setter x).val
  data (x : S) (p : P) : (view ((setter x).assign p)).2 = (view p).2

/-- A value that was granted for a parameter is the one the block would set it to. -/
def Matches (view : P → List (String × QVariant) × List (String × QVariant)) (o : Outside)
    (grp name : String) (s : SyncBlock P) : Prop :=
  ∀ v w, granted o grp name s.requests = some v → valueIn (view s.params).1 grp name = some w →
    v = w

/-- The parameter is not set by a request that has failed and is taken as one that was put off. -/
def NotTaken (setter : S → Setter P) (o : Outside) (grp name : String) (s : BlockSystem P) :
    Act W S → Prop
  | .set x => (setter x).grp = grp → (setter x).name = name → ¬(setter x).TakenAsBusy o s.block
  | _ => True

section
variable {dev : Device P W S} {d : Dir} {setter : S → Setter P} {o : Outside}
  {view : P → List (String × QVariant) × List (String × QVariant)} {s t : SyncBlock P}

theorem Matches.unchanged (h : Matches view o grp name s)
    (hc : granted o grp name t.requests = granted o grp name s.requests)
    (hv : valueIn (view t.params).1 grp name = valueIn (view s.params).1 grp name) :
    Matches view o grp name t := by
  intro v w
  rw [hc, hv]
  exact h v w

theorem Matches.start (hm : Mirrors dev d view setter) (h : Matches view o grp name s)
    (hs : StartSent d o (view s.params).1 (view s.params).2 rval s t) :
    Matches view o grp name t := by
  intro v w hv hw
  rw [hs.params] at hw
  have hg : grp ∉ [d.data, "ref"] := by
    apply hm.grp s.params grp name
    rw [hw]
    exact Option.some_ne_none w
  rcases hs.settings grp name hg with ⟨_, hc⟩ | hc
  · exact h v w (hc.symm.trans hv) hw
  · rw [hc, hw] at hv
    exact (Option.some.inj hv).symm

theorem valueIn_map (x : Setter P) (grp name : String) :
    valueIn x.map grp name =
      if grp = x.grp ∧ name = x.name then some x.val else none := by
  rw [valueIn, Setter.map, List.lookup_cons]
  by_cases hg : grp = x.grp
  · rw [beq_iff_eq.2 hg]
    change ([(x.name, x.val)] : List (String × QVariant)).lookup name = _
    rw [List.lookup_cons]
    by_cases hn : name = x.name
    · rw [beq_iff_eq.2 hn, if_pos ⟨hg, hn⟩]
    · rw [beq_eq_false_iff_ne.2 hn, if_neg fun h => hn h.2]
      rfl
  · rw [beq_eq_false_iff_ne.2 hg, if_neg fun h => hg h.1]
    rfl

theorem Matches.set (hm : Mirrors dev d view setter) (h : Matches view o grp name s)
    (hn : (setter x).grp = grp → (setter x).name = name → ¬(setter x).TakenAsBusy o s)
    (hreq : t.requests = sent s.requests (setter x).map)
    (hs : t.params = (setter x).assign s.params ∧
        ((o.server t.requests).result.success = true ∨ (setter x).TakenAsBusy o s) ∨
      t.params = s.params ∧ (o.server t.requests).result.success = false) :
    Matches view o grp name t := by
  have hc := granted_sent o grp name s.requests (setter x).map
  have hval := valueIn_map (setter x) grp name
  rw [← hreq] at hc
  by_cases hx : grp = (setter x).grp ∧ name = (setter x).name
  · rw [if_pos hx] at hval
    obtain ⟨rfl, rfl⟩ := hx
    rw [hval, Option.some_or] at hc
    rcases hs with ⟨hp, hr | hbusy⟩ | ⟨hp, hr⟩
    · rw [if_pos hr] at hc
      intro v w hv hw
      rw [hp] at hw
      rw [hc] at hv
      exact (Option.some.inj hv).symm.trans (hm.own x s.params w hw).symm
    · exact absurd hbusy (hn rfl rfl)
    · rw [hr, if_neg Bool.false_ne_true] at hc
      exact h.unchanged hc (by rw [hp])
  · rw [hval, if_neg hx, Option.none_or, ite_self] at hc
    apply h.unchanged hc
    rcases hs with ⟨hp, _⟩ | ⟨hp, _⟩
    · rw [hp]
      exact hm.other x s.params grp name hx
    · rw [hp]

end

section
variable {dev : Device P W S} {d : Dir} {setter : S → Setter P} {o : Outside}
  {view : P → List (String × QVariant) × List (String × QVariant)} {s t : BlockSystem P}

theorem step_setNull (hm : Mirrors dev d view setter) (hc : s.block.client = none)
    (hs : step dev o s (.set x) = some t) : t.block = s.block := by
  rw [step] at hs
  split at hs
  · cases hs
  · have hnull : (Act.set x : Act W S).op dev o s.block = .error .client := by
      rw [Act.op, hm.set x]
      exact discard_of_error (setParam_null hc)
    rw [hnull] at hs
    cases hs
    rfl

theorem Matches.step (hm : Mirrors dev d view setter) (h : Matches view o grp name s.block)
    (hn : NotTaken setter o grp name s a) (hs : step dev o s a = some t) :
    Matches view o grp name t.block := by
  cases a with
  | start =>
    obtain ⟨ht, _⟩ := step_ends hs (((hm.start o s.block).mono fun rval u hu =>
      Matches.start hm h hu).discard)
    exact ht
  | stop =>
    have hstop : Ends dev.stop o s.block fun _ u => Matches view o grp name u := by
      rw [hm.stop]
      apply (stop_sent d o s.block).mono
      intro rval u hu v w hv hw
      rw [hu.params] at hw
      have hg := hm.grp s.block.params grp name (by rw [hw]; exact Option.some_ne_none w)
      have hd : grp ≠ d.data := fun he => hg (he ▸ List.mem_cons_self ..)
      exact h v w ((hu.settings grp name hd).symm.trans hv) hw
    exact (step_ends hs hstop.discard).1
  | work w =>
    obtain ⟨ht, _⟩ := step_ends hs ((hm.work o s.block w).mono fun _ u hu =>
      h.unchanged (hu.granted o grp name) (by rw [hu.view]))
    exact ht
  | set x =>
    cases hc : s.block.client with
    | none => exact (step_setNull hm hc hs) ▸ h
    | some c =>
      have hset : Ends (dev.set x) o s.block fun _ u => Matches view o grp name u := by
        rw [hm.set x]
        apply Ends.discard
        apply ((setter x).run_ends (hc ▸ rfl)).mono
        rintro _ u ⟨hreq, hu⟩
        exact h.set hm hn hreq hu
      exact (step_ends hs hset).1
  | deleteLater => exact (step_ends (Q := Matches view o grp name) hs (ends_modify h)).1

end

/-- The value of a parameter that the server has last confirmed. `Call` reports success as well for
a request it has put off, which no server has answered. -/
def confirmed (o : Outside) (grp name : String) (requests : List (List QVariant)) :
    Option QVariant :=
  replay (fun sent => (o.server sent).confirms) (fun req v => (settingOf req grp name).or v) none
    requests

/-- No request for the parameter was put off. -/
def Direct (o : Outside) (grp name : String) (requests : List (List QVariant)) : Prop :=
  ∀ pre req post, requests = pre ++ req :: post → settingOf req grp name ≠ none →
    o.server (pre ++ [req]) ≠ .busy

theorem confirmed_eq (h : Direct o grp name reqs) :
    confirmed o grp name reqs = granted o grp name reqs := by
  refine replay_congr fun pre req post he => ?_
  by_cases hs : settingOf req grp name = none
  · right
    intro v
    rw [hs, Option.none_or]
  · left
    have hd := h pre req post he hs
    cases ho : o.server (pre ++ [req]) with
    | busy => exact absurd ho hd
    | reply | noResponse => rfl

/-- What those know of the data who look at what `start` and `stop` return. -/
inductive DataFlow
  | unknown
  | on
  | off
  deriving DecidableEq

/-- What is known after an action. A `stop` of a block without a client does nothing. -/
def flowAfter (dev : Device P W S) (o : Outside) (s : BlockSystem P) (a : Act W S)
    (f : DataFlow) : DataFlow :=
  match a with
  | .start =>
    match dev.start o s.block with
    | .ok (true, _) => .on
    | _ => .unknown
  | .stop =>
    if s.block.client.isSome then
      match dev.stop o s.block with
      | .ok (true, _) => .off
      | _ => .unknown
    else f
  | _ => f

def stepKnown (dev : Device P W S) (o : Outside) (s : BlockSystem P × DataFlow) (a : Act W S) :
    Option (BlockSystem P × DataFlow) :=
  (step dev o s.1 a).map fun t => (t, flowAfter dev o s.1 a s.2)

/-- What is known of the data is what was granted. -/
structure FlowGranted (d : Dir) (view : P → List (String × QVariant) × List (String × QVariant))
    (o : Outside) (s : SyncBlock P) (f : DataFlow) : Prop where
  on : f = .on → Grants o d.data (view s.params).2 s.requests
  off : f = .off → Grants o d.data flowOff s.requests

section
variable {dev : Device P W S} {d : Dir} {setter : S → Setter P} {o : Outside}
  {view : P → List (String × QVariant) × List (String × QVariant)} {s t : SyncBlock P}

theorem FlowGranted.unchanged (h : FlowGranted d view o s f)
    (hc : ∀ name, granted o d.data name t.requests = granted o d.data name s.requests)
    (hv : (view t.params).2 = (view s.params).2) : FlowGranted d view o t f where
  on hf name v hl := (hc name).trans (h.on hf name v (hv ▸ hl))
  off hf name v hl := (hc name).trans (h.off hf name v hl)

theorem FlowGranted.unknown (s : SyncBlock P) : FlowGranted d view o s .unknown :=
  ⟨fun h => (by cases h), fun h => (by cases h)⟩

theorem FlowGranted.set (hm : Mirrors dev d view setter) (h : FlowGranted d view o s f)
    (hreq : t.requests = sent s.requests (setter x).map)
    (hp : t.params = (setter x).assign s.params ∨ t.params = s.params) :
    FlowGranted d view o t f := by
  apply h.unchanged
  · intro name
    have hd : ¬(d.data = (setter x).grp ∧ name = (setter x).name) := fun he =>
      hm.setGrp x (he.1 ▸ List.mem_cons_self ..)
    rw [hreq, granted_sent, valueIn_map, if_neg hd, Option.none_or, ite_self]
  · rcases hp with hp | hp
    · rw [hp, hm.data]
    · rw [hp]

end

section
variable {dev : Device P W S} {d : Dir} {setter : S → Setter P} {o : Outside}
  {view : P → List (String × QVariant) × List (String × QVariant)}

theorem FlowGranted.step {s t : BlockSystem P × DataFlow} (hm : Mirrors dev d view setter)
    (h : FlowGranted d view o s.1.block s.2) (hs : stepKnown dev o s a = some t) :
    FlowGranted d view o t.1.block t.2 := by
  obtain ⟨u, hu, rfl⟩ := Option.map_eq_some_iff.1 hs
  cases a with
  | start =>
    obtain ⟨rval, b, hb, hsent⟩ := hm.start o s.1.block
    have hblock := (step_ends (Q := fun v => v = b) hu (.discard ⟨rval, b, hb, rfl⟩)).1
    rw [hblock, flowAfter, hb]
    cases rval with
    | true => exact ⟨fun _ => hsent.params ▸ hsent.flow rfl, fun h => by cases h⟩
    | false => exact .unknown b
  | stop =>
    obtain ⟨rval, b, hb, hsent⟩ := hm.stop ▸ stop_sent d o s.1.block
    have hblock := (step_ends (Q := fun v => v = b) hu (.discard ⟨rval, b, hb, rfl⟩)).1
    rw [hblock, flowAfter]
    cases hc : s.1.block.client with
    | none =>
      rw [hsent.null hc]
      exact h
    | some c =>
      rw [Option.isSome_some, if_pos rfl, hb]
      cases rval with
      | true => exact ⟨fun h => (by cases h), fun _ => hsent.flow rfl (hc ▸ rfl)⟩
      | false => exact .unknown b
  | work w =>
    obtain ⟨hw, _⟩ := step_ends hu (hm.work o s.1.block w)
    exact h.unchanged (hw.granted o d.data) (by rw [hw.view])
  | set x =>
    cases hc : s.1.block.client with
    | none => exact (step_setNull hm hc hu) ▸ h
    | some c =>
      have hset : Ends (dev.set x) o s.1.block fun _ b => FlowGranted d view o b s.2 := by
        rw [hm.set x]
        apply Ends.discard
        apply ((setter x).run_ends (hc ▸ rfl)).mono
        rintro _ b ⟨hreq, hb⟩
        exact h.set hm hreq (hb.imp And.left And.left)
      exact (step_ends hu hset).1
  | deleteLater =>
    exact (step_ends (Q := fun b => FlowGranted d view o b s.2) hu
      (ends_modify (h.unchanged (fun _ => rfl) rfl))).1

end

/-- The server has confirmed what is listed. -/
def Confirms (o : Outside) (grp : String) (list : List (String × QVariant))
    (requests : List (List QVariant)) : Prop :=
  ∀ name v, list.lookup name = some v → confirmed o grp name requests = some v

/-- What is known of the data is what the server has confirmed. -/
structure FlowConfirmed (d : Dir) (view : P → List (String × QVariant) × List (String × QVariant))
    (o : Outside) (s : SyncBlock P) (f : DataFlow) : Prop where
  on : f = .on → Confirms o d.data (view s.params).2 s.requests
  off : f = .off → Confirms o d.data flowOff s.requests

theorem FlowGranted.confirmed {s : SyncBlock P} (h : FlowGranted d view o s f)
    (hd : ∀ name, Direct o d.data name s.requests) : FlowConfirmed d view o s f where
  on hf name v hv := (confirmed_eq (hd name)).trans (h.on hf name v hv)
  off hf name v hv := (confirmed_eq (hd name)).trans (h.off hf name v hv)

end BlockSystem

end Avs4000
