import Avs4000.AVS4000Client
import Avs4000.TcpRxSignalClient
import Avs4000.TxWork

namespace Avs4000
set_option autoImplicit true

/-- A null pointer that is followed. -/
inductive NullPointer
  | client
  | signal

/-- A block with its parameters, its `client`, and the clients whose deletion is pending. The
signal clients are all those ever made. -/
structure SyncBlock (P : Type) where
  params : P
  updateCount : UInt32
  client : Option AVS4000Client
  later : List AVS4000Client
  requests : List (List QVariant)
  signals : List SignalClient

abbrev Op (P : Type) := ReaderT Outside (StateT (SyncBlock P) (Except NullPointer))

/-- The parameters both blocks have. -/
structure CommonParams where
  host : String
  dn : Int
  refMaster : Bool
  tbSource : String
  refMode : String
  ppsSource : String
  sysSync : Bool

/-- Numbers are kept as the variants that are made of them. -/
structure RxParams extends CommonParams where
  rate : QVariant
  rxFreq : QVariant
  rxRFBW : QVariant
  rfGain : QVariant
  gainMode : String
  ddcFreq : QVariant
  ddcOutGain : QVariant
  startMode : String
  useFracSec : Bool
  masterSampleRate : QVariant
  useTestPattern : Bool

structure TxParams extends CommonParams where
  rate : QVariant
  txFreq : QVariant
  txRFBW : QVariant
  ducFreq : QVariant
  ducOutGain : QVariant
  ampEnable : Bool
  outRxEn : Bool
  startMode : String
  txRetry : UInt32

namespace SyncBlock
open TcpJSONClient AVS4000Client
variable {P : Type}

def new (params : P) : SyncBlock P := ⟨params, 0, none, [], [], []⟩

def follow (e : NullPointer) : Option α → Op P α
  | none => throw e
  | some a => return a

/-- A member function of the client is called. -/
def onClient (m : Api α) : Op P α := do
  let c ← follow .client (← get).client
  fun o s =>
    let r := m o ⟨c, s.requests, s.signals⟩
    .ok (r.1, { s with
      client := some r.2.client, requests := r.2.requests, signals := r.2.signals })

/-- The test `client==nullptr || client->rxSig==nullptr`, or the one with `txSig`. -/
def noSignal (d : Dir) : Op P Bool := do
  let s ← get
  if s.client.isNone then return true
  else
    let c ← follow .client s.client
    return (c.sig d).isNone

def updateOrWait (p : CommonParams) : Op P Unit := do
  if p.refMaster then
    let _ ← onClient (updateRef p.refMode p.ppsSource p.tbSource p.sysSync).lift
  else
    let count ← onClient getUpdateCount.lift
    let r ← onClient (waitForRefUpdate count 20000).lift
    modify fun s => { s with updateCount := r.2 }

/-- What `start` does in both blocks. The client of before is not looked at. -/
def startUp (d : Dir) (p : CommonParams) (basePort : Int) (map : List (String × QVariant))
    (startData : Calls CallResult) : Op P Bool := do
  modify fun s => { s with client := some (.new p.host (UInt8.ofInt p.dn)) }
  let _ ← onClient (stopData d).lift
  updateOrWait p
  let r ← onClient (entry (.set map)).lift
  if r.success then
    let r ← onClient (connectTcp d p.host (UInt16.ofInt (basePort + p.dn)) true)
    if r.success then return (← onClient startData.lift).success
    else return false
  else return false

/-- What `stop` does in both blocks. -/
def stop (d : Dir) : Op P Bool := do
  if (← get).client.isSome then
    let stopped ← onClient (stopData d).lift
    let rval ← if stopped.success then onClient (disconnect d) else pure stopped
    modify fun s => { s with later := s.later ++ s.client.toList, client := none }
    return rval.success
  else return true

/-- The event loop runs the next of the pending deletions. -/
def deleteLater : Op P Unit :=
  modify fun s => { s with
    later := s.later.tail
    signals := s.later.head?.elim s.signals fun c => c.destroy s.signals }

/-- What the functions do that set a parameter. Some of them take the code `apiBusy` for a
success. These may find it in `ecode` from before the call. -/
def setParam (grp name : String) (ecode : Option UInt32) (val : QVariant) (assign : P → P) :
    Op P Bool := do
  let r ← onClient (entry (.setParam (grp ++ "." ++ name) val)).lift
  if r.success || ecode.any fun code => (r.error.map Prod.fst).getD code == apiBusy then
    modify fun s => { s with params := assign s.params }
    return r.success
  else return r.success

end SyncBlock

namespace Avs4000Rx
open TcpJSONClient AVS4000Client SyncBlock

/-- The rate is read once it is wanted. -/
def readMasterSampleRate : Op RxParams Unit := do
  if (← read).sign (← get).params.masterSampleRate = .eq then
    let rate ← onClient getRealMasterSampleRate.lift
    modify fun s => { s with params := { s.params with masterSampleRate := rate } }
  else return ()

/-- The tag is published if the time it has can be made out. -/
def addItemTag (t : TimeTag) : Op RxParams (List TimeTag) := do
  if t.valid then
    if (← get).params.useFracSec then
      readMasterSampleRate
      return if (← read).sign (← get).params.masterSampleRate = .gt then [t] else []
    else return [t]
  else return []

def addItemTags : List TimeTag → Op RxParams (List TimeTag)
  | [] => return []
  | t :: ts => return (← addItemTag t) ++ (← addItemTags ts)

/-- The samples as the array of 16-bit integers that `work` has them written to. -/
def rBuf (samples : List UInt32) (k : Nat) : UInt16 :=
  UInt16.ofNat (Memory.ofLE (((Memory.ofWords samples).drop (2 * k)).take 2))

/-- Item `i` that `work` puts out. The Q word comes before the I word. -/
def out (float : UInt16 → β) (samples : List UInt32) (i : Nat) : GrComplex β where
  imag := float (rBuf samples (i * 2))
  real := float (rBuf samples (i * 2 + 1))

/-- `work`, where `ReceiveSamples` returns `rval` and `tList`. It returns the number of items and
the tags it publishes, or `none` for -1. -/
def work (noutputItems rval : Nat) (tList : List TimeTag) :
    Op RxParams (Option (Nat × List TimeTag)) := do
  let samples := TxBlock.samples noutputItems
  if ← noSignal .rx then return none
  else
    let c ← follow .client (← get).client
    let _ ← follow .signal c.rxSig
    if rval ≠ samples then return none
    else return some (samples, ← addItemTags tList)

def setRate (rate : QVariant) : Op RxParams Bool :=
  setParam "rx" "SampleRate" none rate fun p => { p with rate := rate }

def setRxGain (ecode : UInt32) (rfGain : QVariant) : Op RxParams Bool :=
  setParam "rx" "Gain" (some ecode) rfGain fun p => { p with rfGain := rfGain }

def setRxFreq (ecode : UInt32) (freq : QVariant) : Op RxParams Bool :=
  setParam "rx" "Freq" (some ecode) freq fun p => { p with rxFreq := freq }

def setDDCFreq (freq : QVariant) : Op RxParams Bool :=
  setParam "ddc" "Freq" none freq fun p => { p with ddcFreq := freq }

def setDDCOutGain (val : QVariant) : Op RxParams Bool :=
  setParam "ddc" "OutGain" none val fun p => { p with ddcOutGain := val }

/-- What `start` sets. The gain is set in the mode `Manual` only. -/
def startMap (p : RxParams) : List (String × QVariant) :=
  [("rx", .map ([("SampleRate", p.rate), ("Freq", p.rxFreq), ("StartMode", .string p.startMode),
      ("RFBW", p.rxRFBW), ("GainMode", .string p.gainMode)] ++
      if p.gainMode.toLower = "manual" then [("Gain", p.rfGain)] else [])),
    ("ddc", .map [("Freq", p.ddcFreq), ("OutGain", p.ddcOutGain)])]

/-- The last wait is for data to flow. -/
def start : Op RxParams Bool := do
  let p := (← get).params
  let rval ← startUp .rx p.toCommonParams 12700 (startMap p) (startRxData p.useTestPattern)
  if rval then onClient (waitForRxData 20000).lift else return false

def stop : Op RxParams Bool := SyncBlock.stop .rx

end Avs4000Rx

namespace Avs4000Tx
open AVS4000Client SyncBlock

/-- `work`, where `Send` returns `rval`. -/
def work (noutputItems rval : Nat) : Op TxParams (Option Nat) := do
  if ← noSignal .tx then return none
  else
    let c ← follow .client (← get).client
    let _ ← follow .signal c.txSig
    let r := TxBlock.sent ⟨true, (← get).params.txRetry⟩ (TxBlock.samples noutputItems) rval
    modify fun s => { s with params := { s.params with txRetry := r.1.txRetry } }
    return r.2

def setRate (rate : QVariant) : Op TxParams Bool :=
  setParam "tx" "SampleRate" none rate fun p => { p with rate := rate }

def setTxFreq (ecode : UInt32) (freq : QVariant) : Op TxParams Bool :=
  setParam "tx" "Freq" (some ecode) freq fun p => { p with txFreq := freq }

def setDUCFreq (freq : QVariant) : Op TxParams Bool :=
  setParam "duc" "Freq" none freq fun p => { p with ducFreq := freq }

def setDUCOutGain (val : QVariant) : Op TxParams Bool :=
  setParam "duc" "OutGain" none val fun p => { p with ducOutGain := val }

/-- What `start` sets. -/
def startMap (p : TxParams) : List (String × QVariant) :=
  [("tx", .map [("SampleRate", p.rate), ("Freq", p.txFreq), ("StartMode", .string p.startMode),
      ("AmpEnable", .bool p.ampEnable), ("OutRxEnable", .bool p.outRxEn), ("RFBW", p.txRFBW)]),
    ("duc", .map [("Freq", p.ducFreq), ("OutGain", p.ducOutGain)])]

def start : Op TxParams Bool := do
  let p := (← get).params
  startUp .tx p.toCommonParams 12800 (startMap p) startTxData

def stop : Op TxParams Bool := SyncBlock.stop .tx

end Avs4000Tx

/-- The operations of a block. -/
structure Device (P W S : Type) where
  start : Op P Bool
  stop : Op P Bool
  work : W → Op P Unit
  set : S → Op P Unit

/-- A call of `work` and what `ReceiveSamples` returns in it. -/
structure RxWork where
  noutputItems : Nat
  rval : Nat
  tList : List TimeTag

/-- A call of `work` and what `Send` returns in it. -/
structure TxWork where
  noutputItems : Nat
  rval : Nat

inductive RxSet
  | rate (rate : QVariant)
  | rxFreq (ecode : UInt32) (freq : QVariant)
  | rxGain (ecode : UInt32) (rfGain : QVariant)
  | ddcFreq (freq : QVariant)
  | ddcOutGain (val : QVariant)

inductive TxSet
  | rate (rate : QVariant)
  | txFreq (ecode : UInt32) (freq : QVariant)
  | ducFreq (freq : QVariant)
  | ducOutGain (val : QVariant)

def RxSet.run : RxSet → Op RxParams Bool
  | rate r => Avs4000Rx.setRate r
  | rxFreq ecode freq => Avs4000Rx.setRxFreq ecode freq
  | rxGain ecode rfGain => Avs4000Rx.setRxGain ecode rfGain
  | ddcFreq freq => Avs4000Rx.setDDCFreq freq
  | ddcOutGain val => Avs4000Rx.setDDCOutGain val

def TxSet.run : TxSet → Op TxParams Bool
  | rate r => Avs4000Tx.setRate r
  | txFreq ecode freq => Avs4000Tx.setTxFreq ecode freq
  | ducFreq freq => Avs4000Tx.setDUCFreq freq
  | ducOutGain val => Avs4000Tx.setDUCOutGain val

def avs4000rx : Device RxParams RxWork RxSet where
  start := Avs4000Rx.start
  stop := Avs4000Rx.stop
  work w := discard (Avs4000Rx.work w.noutputItems w.rval w.tList)
  set x := discard x.run

def avs4000tx : Device TxParams TxWork TxSet where
  start := Avs4000Tx.start
  stop := Avs4000Tx.stop
  work w := discard (Avs4000Tx.work w.noutputItems w.rval)
  set x := discard x.run

/-- A block until it follows a null pointer. -/
structure BlockSystem (P : Type) where
  block : SyncBlock P
  fault : Option NullPointer

namespace BlockSystem

/-- What is done to a block. The event loop may run a pending deletion at any time. -/
inductive Act (W S : Type)
  | start
  | stop
  | work (w : W)
  | set (x : S)
  | deleteLater

def Act.op (d : Device P W S) : Act W S → Op P Unit
  | .start => discard d.start
  | .stop => discard d.stop
  | .work w => d.work w
  | .set x => d.set x
  | .deleteLater => SyncBlock.deleteLater

def init (params : P) : BlockSystem P := ⟨.new params, none⟩

def step (d : Device P W S) (o : Outside) (s : BlockSystem P) (a : Act W S) :
    Option (BlockSystem P) :=
  match s.fault with
  | some _ => none
  | none =>
    match a.op d o s.block with
    | .ok (_, block) => some ⟨block, none⟩
    | .error e => some ⟨s.block, some e⟩

end BlockSystem

end Avs4000
