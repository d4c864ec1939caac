import Avs4000.AVS4000Blocks
import Avs4000.Lib.Ends

namespace Avs4000
set_option autoImplicit true

namespace SyncBlock
open Sys TcpJSONClient AVS4000Client
variable {P : Type}

/-- What the calls of the server leave alone. -/
structure SameSignals (s t : SyncBlock P) : Prop where
  client : t.client = s.client
  later : t.later = s.later
  signals : t.signals = s.signals

theorem SameSignals.refl (s : SyncBlock P) : SameSignals s s := ⟨rfl, rfl, rfl⟩

theorem SameSignals.trans {s t u : SyncBlock P} (h : SameSignals s t) (h' : SameSignals t u) :
    SameSignals s u :=
  ⟨h'.client.trans h.client, h'.later.trans h.later, h'.signals.trans h.signals⟩

theorem SameSignals.isSome {s t : SyncBlock P} (h : SameSignals { s with client := some c } t) :
    t.client.isSome := by
  rw [h.client]
  rfl

theorem ends_follow {s : SyncBlock P} {p : Option α} {f : α → Op P β} (hp : p = some a) :
    Ends (follow e p >>= f) o s Q ↔ Ends (f a) o s Q := by
  cases hp
  exact Iff.rfl

theorem onClient_ends {s : SyncBlock P} {m : Api α} (hc : s.client = some c)
    (h : ∀ a c' requests signals, m o ⟨c, s.requests, s.signals⟩ = (a, ⟨c', requests, signals⟩) →
      Q a { s with client := some c', requests := requests, signals := signals }) :
    Ends (onClient m) o s Q := by
  refine ⟨_, _, ?_, h _ _ _ _ rfl⟩
  rw [onClient, get_bind, hc]
  rfl

theorem onClient_null {s : SyncBlock P} {m : Api α} (hc : s.client = none) :
    onClient m o s = .error .client := by
  rw [onClient, get_bind, hc]
  rfl

theorem calls_ends {s : SyncBlock P} (m : Calls α) (hc : s.client.isSome) :
    Ends (onClient m.lift) o s fun _ t => SameSignals s t := by
  obtain ⟨c, hc⟩ := Option.isSome_iff_exists.1 hc
  apply onClient_ends hc
  intro a c' requests signals h
  cases h
  exact ⟨hc.symm, rfl, rfl⟩

/-- A client that has just been made, with the signal client it may have got since. -/
structure Started (d : Dir) (s t : SyncBlock P) : Prop where
  later : t.later = s.later
  client : ∃ c, t.client = some c ∧ c.sig d.other = none ∧
    (c.sig d = none ∧ t.signals = s.signals ∨ c.sig d = some s.signals.length ∧
      ∃ n host port, t.signals = s.signals ++ [.tcpSignalClient n host port])

theorem Started.isSome {s t : SyncBlock P} (h : Started d s t) : t.client.isSome := by
  obtain ⟨c, hc, _⟩ := h.client
  rw [hc]
  rfl

theorem Started.same {s t u : SyncBlock P} (h : Started d s t) (hu : SameSignals t u) :
    Started d s u := by
  obtain ⟨c, hc, hcl⟩ := h.client
  refine ⟨hu.later.trans h.later, c, hu.client.trans hc, ?_⟩
  rw [hu.signals]
  exact hcl

theorem Started.calls {s t : SyncBlock P} (h : Started d s t) (m : Calls α) :
    Ends (onClient m.lift) o t fun _ u => Started d s u :=
  (calls_ends m h.isSome).mono fun _ _ hu => h.same hu

theorem updateOrWait_ends {s : SyncBlock P} (hc : s.client.isSome) (p : CommonParams) :
    Ends (updateOrWait p) o s fun _ t => SameSignals s t := by
  rw [updateOrWait]
  split
  · apply (calls_ends _ hc).bind
    intro _ t ht
    exact ends_pure ht
  · apply (calls_ends _ hc).bind
    intro count t ht
    apply (calls_ends _ (ht.client ▸ hc)).bind
    intro r u hu
    exact ends_modify (ht.trans ⟨hu.client, hu.later, hu.signals⟩)

theorem connectTcp_cases {s : Session} (d : Dir) (h : s.client.sig d = none)
    (hr : connectTcp d host port useVita49 o s = (r, t)) :
    t.client = s.client ∧ t.signals = s.signals ∨
      t.client = s.client.setSig (some s.signals.length) d ∧
        ∃ n, t.signals = s.signals ++ [.tcpSignalClient n host port] := by
  have hconnect : connectTcp d host port useVita49 o s = connectNew d host port useVita49 o s := by
    change (if (s.client.sig d).isSome then _ else _ : Api CallResult) o s = _
    rw [h]
    rfl
  have hnew : connectNew d host port useVita49 o s = (r, t) := hconnect.symm.trans hr
  change (if (s.client.sig d).isNone then _ else _ : Api CallResult) o s = _ at hnew
  rw [h, if_pos Option.isNone_none] at hnew
  generalize entry _ = m at hnew
  change (if (m o s.requests).1.success then _ else _ : Api CallResult) o _ = _ at hnew
  split at hnew
  · cases hnew
    exact .inr ⟨rfl, _, rfl⟩
  · cases hnew
    exact .inl ⟨rfl, rfl⟩

theorem SameSignals.started {s t : SyncBlock P}
    (h : SameSignals { s with client := some (.new host no) } t) : Started d s t := by
  refine ⟨h.later, _, h.client, ?_, .inl ⟨?_, h.signals⟩⟩
  · cases d <;> rfl
  · cases d <;> rfl

theorem connect_ends {s t : SyncBlock P} (d : Dir)
    (h : SameSignals { s with client := some (.new host no) } t) :
    Ends (onClient (connectTcp d name port useVita49)) o t fun _ u => Started d s u := by
  apply onClient_ends h.client
  intro r c requests signals hr
  have hnone : (AVS4000Client.new host no).sig d = none := by cases d <;> rfl
  rcases connectTcp_cases d hnone hr with ⟨hc, hs⟩ | ⟨hc, n, hs⟩
  · exact SameSignals.started ⟨congrArg some hc, h.later, hs.trans h.signals⟩
  · change c = (AVS4000Client.new host no).setSig (some t.signals.length) d at hc
    refine ⟨h.later, c, rfl, ?_, .inr ⟨?_, n, _, _, hs.trans (congrArg (· ++ _) h.signals)⟩⟩
    · rw [hc]
      cases d <;> rfl
    · rw [hc, h.signals]
      cases d <;> rfl

theorem startUp_ends {s : SyncBlock P} (d : Dir) (p : CommonParams) (basePort : Int)
    (map : List (String × QVariant)) (startData : Calls CallResult) :
    Ends (startUp d p basePort map startData) o s fun _ t => Started d s t := by
  rw [startUp]
  apply (ends_modify (Q := fun _ t => SameSignals
    { s with client := some (.new p.host (UInt8.ofInt p.dn)) } t) (.refl _)).bind
  intro _ t ht
  apply (calls_ends _ ht.isSome).bind
  intro _ u hu
  replace hu := ht.trans hu
  apply (updateOrWait_ends hu.isSome p).bind
  intro _ v hv
  replace hv := hu.trans hv
  apply (calls_ends _ hv.isSome).bind
  intro r w hw
  replace hw := hv.trans hw
  split
  · apply (connect_ends d hw).bind
    intro r x hx
    split
    · apply (hx.calls _).bind
      intro _ y hy
      exact ends_pure hy
    · exact ends_pure hx
  · exact ends_pure hw.started

theorem rxStart_ends (s : SyncBlock RxParams) :
    Ends Avs4000Rx.start o s fun _ t => Started .rx s t := by
  rw [Avs4000Rx.start, ends_get]
  apply (startUp_ends ..).bind
  intro rval t ht
  split
  · exact ht.calls _
  · exact ends_pure ht

theorem txStart_ends (s : SyncBlock TxParams) :
    Ends Avs4000Tx.start o s fun _ t => Started .tx s t := by
  rw [Avs4000Tx.start, ends_get]
  exact startUp_ends ..

/-- `stop` parts with the client. Its signal client goes if the server agrees to stop. -/
structure Stopped (d : Dir) (o : Outside) (s t : SyncBlock P) (c : AVS4000Client) : Prop where
  client : t.client = none
  stopped : (stopData d o s.requests).1.success = true →
    t.later = s.later ++ [c.setSig none d] ∧ t.signals = deleteSignal s.signals (c.sig d)
  failed : (stopData d o s.requests).1.success = false →
    t.later = s.later ++ [c] ∧ t.signals = s.signals

theorem stop_ends {s : SyncBlock P} (d : Dir) (hc : s.client = some c) :
    Ends (SyncBlock.stop d) o s fun _ t => Stopped d o s t c := by
  rw [SyncBlock.stop, ends_get, hc, if_pos Option.isSome_some]
  have hstop : Ends (onClient (stopData d).lift) o s fun r t =>
      r = (stopData d o s.requests).1 ∧ SameSignals s t := by
    apply onClient_ends hc
    intro r c' requests signals h
    cases h
    exact ⟨rfl, hc.symm, rfl, rfl⟩
  apply hstop.bind
  rintro _ t ⟨rfl, ht⟩
  cases hr : (stopData d o s.requests).1.success with
  | true =>
    have hdisconnect : Ends (onClient (disconnect d)) o t fun _ u =>
        u.client = some (c.setSig none d) ∧ u.later = s.later ∧
          u.signals = deleteSignal s.signals (c.sig d) := by
      apply onClient_ends (ht.client.trans hc)
      intro r c' requests signals h
      cases h
      exact ⟨rfl, ht.later, congrArg (deleteSignal · _) ht.signals⟩
    rw [if_pos rfl]
    apply hdisconnect.bind
    rintro r u ⟨hu, hl, hs⟩
    apply (ends_modify (Q := fun _ v => Stopped d o s v c) ⟨rfl, ?_, ?_⟩).bind
    · intro _ v hv
      exact ends_pure hv
    · rw [hu, hl, hs]
      exact fun _ => ⟨rfl, rfl⟩
    · intro hf
      cases hr.symm.trans hf
  | false =>
    rw [if_neg Bool.false_ne_true]
    apply (ends_pure (Q := fun _ u => u = t) rfl).bind
    rintro r _ rfl
    apply (ends_modify (Q := fun _ v => Stopped d o s v c) ⟨rfl, ?_, ?_⟩).bind
    · intro _ v hv
      exact ends_pure hv
    · intro hf
      cases hr.symm.trans hf
    · rw [ht.client, hc, ht.later, ht.signals]
      exact fun _ => ⟨rfl, rfl⟩

theorem stop_null {s : SyncBlock P} (d : Dir) (hc : s.client = none) :
    Ends (SyncBlock.stop d) o s fun _ t => t = s := by
  rw [SyncBlock.stop, ends_get, hc, Option.isSome_none, if_neg Bool.false_ne_true]
  exact ends_pure rfl

theorem setParam_ends {s : SyncBlock P} (hc : s.client.isSome) :
    Ends (setParam grp name ecode val assign) o s fun _ t => SameSignals s t := by
  rw [setParam]
  apply (calls_ends _ hc).bind
  intro r t ht
  split
  · apply (ends_modify (Q := fun _ u => SameSignals s u)
      (ht.trans ⟨rfl, rfl, rfl⟩)).bind
    intro _ u hu
    exact ends_pure hu
  · exact ends_pure ht

theorem setParam_null {s : SyncBlock P} (hc : s.client = none) :
    setParam grp name ecode val assign o s = .error .client := by
  rw [setParam]
  exact bind_of_error (onClient_null hc)

theorem noSignal_ends (d : Dir) (s : SyncBlock P) : Ends (noSignal d) o s fun none t =>
    s = t ∧ (none = false → ∃ c i, s.client = some c ∧ c.sig d = some i) := by
  rw [noSignal, ends_get]
  cases hc : s.client with
  | none => exact ends_pure ⟨rfl, fun h => by cases h⟩
  | some c =>
    rw [Option.isNone_some, if_neg Bool.false_ne_true, ends_follow rfl]
    apply ends_pure
    refine ⟨rfl, fun h => ?_⟩
    cases hs : c.sig d with
    | none =>
      rw [hs] at h
      cases h
    | some i => exact ⟨c, i, rfl, hs⟩

theorem readMasterSampleRate_ends {s : SyncBlock RxParams} (hc : s.client.isSome) :
    Ends Avs4000Rx.readMasterSampleRate o s fun _ t => SameSignals s t := by
  rw [Avs4000Rx.readMasterSampleRate, ends_read, ends_get]
  split
  · apply (calls_ends _ hc).bind
    intro rate t ht
    exact ends_modify (ht.trans ⟨rfl, rfl, rfl⟩)
  · exact ends_pure (.refl s)

theorem addItemTag_ends {s : SyncBlock RxParams} (hc : s.client.isSome) (t : TimeTag) :
    Ends (Avs4000Rx.addItemTag t) o s fun _ t => SameSignals s t := by
  rw [Avs4000Rx.addItemTag]
  split
  · rw [ends_get]
    split
    · apply (readMasterSampleRate_ends hc).bind
      intro _ u hu
      rw [ends_read, ends_get]
      exact ends_pure hu
    · exact ends_pure (.refl s)
  · exact ends_pure (.refl s)

theorem addItemTags_ends {s : SyncBlock RxParams} (hc : s.client.isSome) (ts : List TimeTag) :
    Ends (Avs4000Rx.addItemTags ts) o s fun _ t => SameSignals s t := by
  induction ts generalizing s with
  | nil => exact ends_pure (.refl s)
  | cons t ts ih =>
    rw [Avs4000Rx.addItemTags]
    apply (addItemTag_ends hc t).bind
    intro tags u hu
    apply (ih (hu.client ▸ hc)).bind
    intro more v hv
    exact ends_pure (hu.trans hv)

theorem work_ends {s : SyncBlock P} (d : Dir) {sig : AVS4000Client → Option Nat}
    (hsig : ∀ c, sig c = c.sig d) {a : α} {rest : Op P α}
    (hrest : s.client.isSome → Ends rest o s fun _ t => SameSignals s t) :
    Ends (do
      if ← noSignal d then return a
      else
        let c ← follow .client (← get).client
        let _ ← follow .signal (sig c)
        rest) o s fun _ t => SameSignals s t := by
  apply (noSignal_ends d s).bind
  rintro noSig _ ⟨rfl, hsome⟩
  split
  · exact ends_pure (.refl s)
  · next hn =>
    obtain ⟨c, i, hc, hi⟩ := hsome (Bool.eq_false_iff.2 hn)
    rw [ends_get, ends_follow hc, ends_follow ((hsig c).trans hi)]
    exact hrest (Option.isSome_iff_exists.2 ⟨c, hc⟩)

theorem rxWork_ends (s : SyncBlock RxParams) (noutputItems rval : Nat) (tList : List TimeTag) :
    Ends (Avs4000Rx.work noutputItems rval tList) o s fun _ t => SameSignals s t := by
  apply work_ends .rx fun _ => rfl
  intro hc
  split
  · exact ends_pure (.refl s)
  · apply (addItemTags_ends hc tList).bind
    intro tags t ht
    exact ends_pure ht

theorem txWork_ends (s : SyncBlock TxParams) (noutputItems rval : Nat) :
    Ends (Avs4000Tx.work noutputItems rval) o s fun _ t => SameSignals s t := by
  apply work_ends .tx fun _ => rfl
  intro hc
  rw [ends_get]
  apply (ends_modify (Q := fun _ t => SameSignals s t) ⟨rfl, rfl, rfl⟩).bind
  intro _ t ht
  exact ends_pure ht

end SyncBlock

/-- Every one of the functions that set a parameter is the general one. -/
theorem RxSet.run_eq (x : RxSet) :
    ∃ grp name ecode val assign, x.run = SyncBlock.setParam grp name ecode val assign := by
  cases x with
  | rate | rxFreq | rxGain | ddcFreq | ddcOutGain =>
    simp only [run, Avs4000Rx.setRate, Avs4000Rx.setRxFreq, Avs4000Rx.setRxGain,
      Avs4000Rx.setDDCFreq, Avs4000Rx.setDDCOutGain]
    exact ⟨_, _, _, _, _, rfl⟩

theorem TxSet.run_eq (x : TxSet) :
    ∃ grp name ecode val assign, x.run = SyncBlock.setParam grp name ecode val assign := by
  cases x with
  | rate | txFreq | ducFreq | ducOutGain =>
    simp only [run, Avs4000Tx.setRate, Avs4000Tx.setTxFreq, Avs4000Tx.setDUCFreq,
      Avs4000Tx.setDUCOutGain]
    exact ⟨_, _, _, _, _, rfl⟩

namespace BlockSystem
open Sys SyncBlock

/-- The operations of a block of one direction. -/
structure Device.Of (dev : Device P W S) (d : Dir) : Prop where
  start (o : Outside) (s : SyncBlock P) : Ends dev.start o s fun _ t => Started d s t
  stop : dev.stop = SyncBlock.stop d
  work (o : Outside) (s : SyncBlock P) (w : W) : Ends (dev.work w) o s fun _ t => SameSignals s t
  set (o : Outside) (s : SyncBlock P) (x : S) :
    s.client.isSome → Ends (dev.set x) o s fun _ t => SameSignals s t
  setNull (o : Outside) (s : SyncBlock P) (x : S) : s.client = none → dev.set x o s = .error .client

/-- The cases of a step. -/
inductive Step (d : Dir) (o : Outside) (s t : BlockSystem P) : Act W S → Prop
  | start (h : Started d s.block t.block) (hf : t.fault = none) : Step d o s t .start
  | stop (hc : s.block.client = some c) (h : Stopped d o s.block t.block c) (hf : t.fault = none) :
      Step d o s t .stop
  | stopNull (hc : s.block.client = none) (h : t.block = s.block) (hf : t.fault = none) :
      Step d o s t .stop
  | work (h : SameSignals s.block t.block) (hf : t.fault = none) : Step d o s t (.work w)
  | set (hc : s.block.client.isSome) (h : SameSignals s.block t.block) (hf : t.fault = none) :
      Step d o s t (.set x)
  | setNull (hc : s.block.client = none) (h : t.block = s.block) (hf : t.fault = some .client) :
      Step d o s t (.set x)
  | deleteLater (h : t.block = { s.block with
      later := s.block.later.tail
      signals := s.block.later.head?.elim s.block.signals fun c => c.destroy s.block.signals })
      (hf : t.fault = none) : Step d o s t .deleteLater

theorem step_ends {dev : Device P W S} {Q : SyncBlock P → Prop} (hs : step dev o s a = some t)
    (h : Ends (a.op dev) o s.block fun _ u => Q u) : Q t.block ∧ t.fault = none := by
  obtain ⟨r, u, hop, hq⟩ := h
  rw [step] at hs
  split at hs
  · cases hs
  · rw [hop] at hs
    cases hs
    exact ⟨hq, rfl⟩

theorem step_cases {dev : Device P W S} (hd : Device.Of dev d) (hs : step dev o s a = some t) :
    Step d o s t a := by
  cases a with
  | start =>
    obtain ⟨h, hf⟩ := step_ends hs (hd.start o s.block).discard
    exact .start h hf
  | stop =>
    cases hc : s.block.client with
    | none =>
      obtain ⟨h, hf⟩ := step_ends hs (.discard (hd.stop ▸ stop_null d hc))
      exact .stopNull hc h hf
    | some c =>
      obtain ⟨h, hf⟩ := step_ends hs (.discard (hd.stop ▸ stop_ends d hc))
      exact .stop hc h hf
  | work w =>
    obtain ⟨h, hf⟩ := step_ends hs (hd.work o s.block w)
    exact .work h hf
  | set x =>
    cases hc : s.block.client with
    | none =>
      rw [step] at hs
      split at hs
      · cases hs
      · rw [Act.op, hd.setNull o s.block x hc] at hs
        cases hs
        exact .setNull hc rfl rfl
    | some c =>
      have hsome : s.block.client.isSome := Option.isSome_iff_exists.2 ⟨c, hc⟩
      obtain ⟨h, hf⟩ := step_ends hs (hd.set o s.block x hsome)
      exact .set hsome h hf
  | deleteLater =>
    obtain ⟨h, hf⟩ := step_ends (Q := fun u => u = _) hs (ends_modify rfl)
    exact .deleteLater h hf

theorem rx_of : Device.Of avs4000rx .rx where
  start o s := rxStart_ends s
  stop := rfl
  work o s w := (rxWork_ends s w.noutputItems w.rval w.tList).discard
  set o s x hc := by
    obtain ⟨grp, name, ecode, val, assign, hx⟩ := x.run_eq
    exact .discard (hx ▸ setParam_ends hc)
  setNull o s x hc := by
    obtain ⟨grp, name, ecode, val, assign, hx⟩ := x.run_eq
    exact discard_of_error (hx ▸ setParam_null hc)

theorem tx_of : Device.Of avs4000tx .tx where
  start o s := txStart_ends s
  stop := rfl
  work o s w := (txWork_ends s w.noutputItems w.rval).discard
  set o s x hc := by
    obtain ⟨grp, name, ecode, val, assign, hx⟩ := x.run_eq
    exact .discard (hx ▸ setParam_ends hc)
  setNull o s x hc := by
    obtain ⟨grp, name, ecode, val, assign, hx⟩ := x.run_eq
    exact discard_of_error (hx ▸ setParam_null hc)

end BlockSystem

/-- A server that answers everything, over a network where everything works. -/
def Outside.answering (server : List (List QVariant) → QVariant) : Outside where
  server requests := .reply (some ⟨⟨requests.length, .client, callReq "" .invalid, _, _, rfl⟩,
    server requests⟩)
  network _ := ⟨true, fun _ => none, fun _ _ => true⟩
  expired _ := true
  sign _ := .eq

def CommonParams.master : CommonParams := ⟨"localhost", 1, true, "", "", "", false⟩

/-- A receiver that does not set the reference up. -/
def RxParams.plain : RxParams where
  toCommonParams := .master
  rate := .null
  rxFreq := .null
  rxRFBW := .null
  rfGain := .null
  gainMode := "AGC"
  ddcFreq := .null
  ddcOutGain := .null
  startMode := ""
  useFracSec := false
  masterSampleRate := .ofUInt 0
  useTestPattern := false

def TxParams.plain : TxParams where
  toCommonParams := .master
  rate := .null
  txFreq := .null
  txRFBW := .null
  ducFreq := .null
  ducOutGain := .null
  ampEnable := false
  outRxEn := false
  startMode := ""
  txRetry := 0

end Avs4000
