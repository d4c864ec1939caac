import Avs4000.JSONErrors

namespace Avs4000
set_option autoImplicit true

/-- The outcomes of `socket`, `getaddrinfo` and `connect`. What is looked up has an IPv4 address
in some of its entries. -/
structure Network where
  socket : Bool
  getaddrinfo : String → Option (List (Option UInt32))
  connect : UInt32 → UInt16 → Bool

/-- What the server, the network and the clock come up with, given the requests made so far, and
how the double a value is converted to compares with 0. -/
structure Outside where
  server : List (List QVariant) → Outcome
  network : List (List QVariant) → Network
  expired : List (List QVariant) → Bool
  sign : QVariant → Ordering

/-- What runs on a client that calls the server. -/
abbrev Calls := ReaderT Outside (StateM (List (List QVariant)))

namespace TcpJSONClient

def entry (e : CallEntry) : Calls CallResult := fun o requests =>
  let sent := requests ++ (e.request.map fun r => callReq r.1 r.2).toList
  (e.run fun _ _ => (o.server sent).result, sent)

def get (group : String) : Calls (List (String × QVariant)) := do
  let r ← entry (.call "GET" (.string group))
  let map := (r.rval.getD .invalid).toMap
  return if r.success then ((map.lookup group).getD .invalid).toMap else []

/-- A failed call gives an empty map. -/
def getParam (param : String) : Calls QVariant := do
  let r ← entry (.call "GET" (.string param))
  return if r.success then r.rval.getD .invalid else .map []

end TcpJSONClient

/-- A signal client, with an open socket or not, its buffer attached to it or not. -/
structure SignalClient where
  alive : Bool
  sock : Bool
  attached : Bool

def localhost : UInt32 := 0x7F000001

namespace SignalClient

/-- The address to connect to, the first one that is found. -/
def addr (n : Network) (hostname : String) : UInt32 :=
  (((n.getaddrinfo hostname).getD []).findSome? id).getD localhost

def tcpSignalClient (n : Network) (hostname : String) (port : UInt16) : SignalClient where
  alive := true
  sock := n.socket
  attached := n.socket && n.connect (addr n hostname) port

def isConnected (c : SignalClient) : Bool := c.sock

/-- The destructor. It stops the pump and closes the socket. -/
def destroy (c : SignalClient) : SignalClient :=
  if c.sock then ⟨false, false, false⟩ else { c with alive := false }

end SignalClient

inductive Dir
  | rx
  | tx

def Dir.other : Dir → Dir
  | rx => tx
  | tx => rx

def Dir.data : Dir → String
  | rx => "rxdata"
  | tx => "txdata"

/-- What the TX functions set besides. -/
def Dir.runOff : Dir → List (String × QVariant)
  | rx => []
  | tx => [("Run", .bool false)]

/-- The pointers stand for places in the list of the signal clients. -/
structure AVS4000Client where
  hostname : String
  dn : UInt8
  rxSig : Option Nat
  txSig : Option Nat

/-- What the functions of a client work on. -/
structure Session where
  client : AVS4000Client
  requests : List (List QVariant)
  signals : List SignalClient

abbrev Api := ReaderT Outside (StateM Session)

def Calls.lift (m : Calls α) : Api α := fun o s =>
  ((m o s.requests).1, { s with requests := (m o s.requests).2 })

def apiFailure : UInt32 := 16

def apiBusy : UInt32 := 19

def deleteSignal (signals : List SignalClient) : Option Nat → List SignalClient
  | none => signals
  | some i => signals.modify i SignalClient.destroy

namespace AVS4000Client
open TcpJSONClient

def sig (c : AVS4000Client) : Dir → Option Nat
  | .rx => c.rxSig
  | .tx => c.txSig

def setSig (c : AVS4000Client) (p : Option Nat) : Dir → AVS4000Client
  | .rx => { c with rxSig := p }
  | .tx => { c with txSig := p }

/-- The client `Get` makes. -/
def new (hostname : String) (dn : UInt8) : AVS4000Client := ⟨hostname, dn, none, none⟩

/-- The destructor, as far as it goes for the signal clients. -/
def destroy (c : AVS4000Client) (signals : List SignalClient) : List SignalClient :=
  deleteSignal signals c.rxSig

def getRealMasterSampleRate : Calls QVariant := do
  let map ← TcpJSONClient.get "master"
  return (map.lookup "RealSampleRate").getD (.ofUInt 0)

def startData (d : Dir) (grp : List (String × QVariant)) : Calls CallResult :=
  entry (.set [(d.data, .map (("Run", .bool true) :: grp))])

def startRxData (testPatternEnable : Bool) : Calls CallResult :=
  startData .rx [("TestPattern", .bool testPatternEnable)]

def startTxData : Calls CallResult := startData .tx []

def stopData (d : Dir) : Calls CallResult :=
  entry (.set [(d.data, .map [("Run", .bool false), ("ConEnable", .bool false)])])

def stopRxData : Calls CallResult := stopData .rx

def stopTxData : Calls CallResult := stopData .tx

/-- Whatever the server says, the signal client is deleted. -/
def disconnect (d : Dir) : Api CallResult := do
  let r ← (entry (.set [(d.data, .map (("ConEnable", .bool false) :: d.runOff))])).lift
  modify fun s => { s with
    client := s.client.setSig none d, signals := deleteSignal s.signals (s.client.sig d) }
  return r

def disconnectRx : Api CallResult := disconnect .rx

def disconnectTx : Api CallResult := disconnect .tx

/-- Makes a signal client and installs it. -/
def newSignal (d : Dir) (hostname : String) (port : UInt16) : Api SignalClient := fun o s =>
  let c := .tcpSignalClient (o.network s.requests) hostname port
  (c, { s with
    client := s.client.setSig (some s.signals.length) d, signals := s.signals ++ [c] })

/-- The part of a connect that comes after the signal client of before is gone. -/
def connectNew (d : Dir) (hostname : String) (port : UInt16) (useVita49 : Bool) :
    Api CallResult := do
  if ((← get).client.sig d).isNone then
    let r ← (entry (.set [(d.data, .map ([("ConEnable", .bool true), ("ConType", .string "tcp"),
      ("ConPort", .ofUInt port.toUInt32), ("UseV49", .bool useVita49), ("UseBE", .bool false)] ++
      d.runOff))])).lift
    if r.success then
      let sig ← newSignal d hostname port
      return ⟨sig.isConnected, none, r.error⟩
    else return r
  else return ⟨false, none, some (apiFailure, "Already connected")⟩

def connectTcp (d : Dir) (hostname : String) (port : UInt16) (useVita49 : Bool) :
    Api CallResult := do
  if ((← get).client.sig d).isSome then
    let r ← disconnect d
    if r.success then connectNew d hostname port useVita49 else return r
  else connectNew d hostname port useVita49

def connectRxTcp : String → UInt16 → Bool → Api CallResult := connectTcp .rx

def connectTxTcp : String → UInt16 → Bool → Api CallResult := connectTcp .tx

/-- Polls until some data has come or the time is over. Every poll takes 100 ms. -/
def pollRxData : Nat → Calls Bool
  | 0 => return false
  | n + 1 => fun o requests =>
    if o.expired requests then (false, requests)
    else (do
      let map ← TcpJSONClient.get "rxstat"
      if 0 < ((map.lookup "Sample").getD .invalid).toUInt then return true else pollRxData n)
      o requests

def waitForRxData (msTimeout : UInt32) : Calls Bool := pollRxData ((msTimeout.toNat + 99) / 100)

/-- Case folding, as far as it leads to ASCII letters. -/
def foldCase (s : String) : String :=
  s.map fun c => if c = 'ſ' then 's' else if c = '\u212A' then 'k' else c.toLower

def setTimebase (tbSource : String) : Calls Bool := do
  if tbSource.length = 0 then return false
  else return (← entry (.setParam "ref.TimeBase" (.string tbSource))).success

def setRefMode (refMode : String) : Calls Bool := do
  if refMode.length = 0 then return false
  else return (← entry (.setParam "ref.Mode" (.string refMode))).success

/-- With GPSDO or PPS there is nothing to set. -/
def setPPS (refMode ppsSource : String) : Calls Bool := do
  if refMode.length = 0 || ppsSource.length = 0 then return false
  else if foldCase refMode = "gpsdo" || foldCase refMode = "pps" then return true
  else return (← entry (.setParam "ref.PPSSel" (.string ppsSource))).success

def checkRefLock (refMode : String) : Calls Bool := do
  if refMode.length = 0 then return false
  else if foldCase refMode = "internal" || foldCase refMode = "internalstatic" then return true
  else
    let lock ← getParam "ref.lock"
    return lock.isValid && lock.toBool

def setSysSync (sysSync : Bool) : Calls Bool := do
  return (← entry (.setParam "ref.SysSync" (.bool sysSync))).success

def updateRef (refMode ppsSel tbSrc : String) (sysSync : Bool) : Calls Bool :=
  setRefMode refMode <&&> checkRefLock refMode <&&> setPPS refMode ppsSel <&&>
    setSysSync sysSync <&&> setTimebase tbSrc

def getUpdateCount : Calls UInt32 := do
  let count ← getParam "ref.updateCount"
  return if count.isValid then count.toUInt else 0

def pollUpdateCount (refCount : UInt32) : Nat → UInt32 → Calls UInt32
  | 0, updateCount => return updateCount
  | n + 1, updateCount => do
    if refCount < updateCount then return updateCount
    else pollUpdateCount refCount n (← getUpdateCount)

/-- Also gives the count its reference argument is left with. -/
def waitForRefUpdate (refCount msTimeout : UInt32) : Calls (Bool × UInt32) := do
  let updateCount ← pollUpdateCount refCount (msTimeout.toNat / 100) (← getUpdateCount)
  return if refCount < updateCount then (true, updateCount) else (false, refCount)

end AVS4000Client
end Avs4000
