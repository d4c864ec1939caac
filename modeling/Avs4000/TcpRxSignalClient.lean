import Avs4000.Lib.Run
import Avs4000.SocketRxBuffer
import Avs4000.V49Packet

namespace Avs4000
open Memory
set_option autoImplicit true

structure TimeTag where
  valid : Bool
  offset : Nat
  timeInt : UInt32
  timeFrac : UInt64
  deriving DecidableEq

/-- A client with `useV49` set. `partialCount` is the field `partial`. -/
structure TcpRxSignalClient where
  buffer : SocketRxBuffer
  packet : V49Packet
  partialCount : Nat

/-- Where the reading thread stands in `ReceiveSamples`, with the words written to `samples` so
far. Each point is followed by at most one operation on the shared ring. -/
inductive ReceivePc
  | idle
  | loop (count recv : Nat) (samples : List UInt32) (tList : List TimeTag)
  | ready (count recv : Nat) (samples : List UInt32) (tList : List TimeTag)
  | copy (count recv : Nat) (samples : List UInt32) (tList : List TimeTag)
  | copied (count recv : Nat) (samples : List UInt32) (tList : List TimeTag) (amt : Nat)
  | fault

/-- A call of `ReceiveSamples` with what it returned. -/
structure ReceiveCall where
  count : Nat
  samples : List UInt32
  tList : List TimeTag

/-- The client, its caller and the pump of its buffer. `incoming` is what the socket has yet to
deliver, `received` what `::recv` has delivered, `parsed` the bytes `packet` was set from. -/
structure RxSystem where
  client : TcpRxSignalClient
  mem : Mem UInt8
  caller : ReceivePc
  pump : ReadDataPc
  incoming : List UInt8
  received : List UInt8
  parsed : List (List UInt8)
  calls : List ReceiveCall

namespace TcpRxSignalClient

def pktSize : Nat := 0x2000

def new (blkSize blkCount : Nat) : TcpRxSignalClient := ⟨.new blkSize blkCount, .new, 0⟩

def flush (c : TcpRxSignalClient) : TcpRxSignalClient := { c with buffer := c.buffer.reset }

/-- The tag of the packet just set, `recv` words into the call. -/
def timeTag (c : TcpRxSignalClient) (recv : Nat) : TimeTag where
  valid := true
  offset := recv
  timeInt := c.packet.header.timeInt
  timeFrac := c.packet.timeFraction

/-- The number of words the next `memcpy` of `ReceiveSamples` moves. -/
def receiveAmt (c : TcpRxSignalClient) (count recv : Nat) : Nat :=
  if count - recv > c.packet.samplesLen - c.partialCount then c.packet.samplesLen - c.partialCount
  else count - recv

/-- The end of a turn of the loop in `ReceiveSamples`. -/
def complete (c : TcpRxSignalClient) : TcpRxSignalClient :=
  if c.partialCount = c.packet.samplesLen then
    { c with buffer := c.buffer.receiveComplete pktSize, partialCount := 0 }
  else c

end TcpRxSignalClient

namespace RxSystem
open TcpRxSignalClient

def init (stream : List UInt8) (blkSize blkCount : Nat) : RxSystem where
  client := .new blkSize blkCount
  mem _ := 0
  caller := .idle
  pump := .idle
  incoming := stream
  received := []
  parsed := []
  calls := []

/-- `ReceiveSamples` returns. -/
def ret (s : RxSystem) (count recv : Nat) (samples : List UInt32) (tList : List TimeTag) :
    RxSystem :=
  { s with caller := .idle, calls := s.calls ++ [⟨count, samples.take recv, tList⟩] }

/-- The next step of `ReceiveSamples`. -/
def receiveStep (s : RxSystem) : Option RxSystem :=
  match s.caller with
  | .idle | .fault => none
  | .loop count recv samples tList => some <|
    if recv < count then
      if s.client.partialCount = 0 then
        if s.client.buffer.waitForReadyReceive then
          { s with caller := .ready count recv samples tList }
        else s.ret count recv samples tList
      else { s with caller := .copy count recv samples tList }
    else s.ret count recv samples tList
  | .ready count recv samples tList =>
    let (buffer, buf) := s.client.buffer.receiveStart
    match buf with
    | none => some { s with client.buffer := buffer, caller := .fault }
    | some r =>
      let client := { s.client with
        buffer := buffer, packet := s.client.packet.init s.mem r.ptr pktSize }
      some { s with
        client := client
        caller := .copy count recv samples (tList ++ [client.timeTag recv])
        parsed := s.parsed ++ [s.mem.load r.ptr pktSize] }
  | .copy count recv samples tList =>
    match s.client.packet.samples with
    | none => some { s with caller := .fault }
    | some sbuf =>
      let amt := s.client.receiveAmt count recv
      some { s with
        client.partialCount := s.client.partialCount + amt
        caller := .copied count recv
          (samples ++ s.mem.loadWords (sbuf + 4 * s.client.partialCount) amt) tList amt }
  | .copied count recv samples tList amt =>
    some { s with client := s.client.complete, caller := .loop count (recv + amt) samples tList }

inductive Act
  | receive (count : Nat)
  | receiveStep
  | flush
  | readDataStart
  | got (res : RecvResult)
  | readDataComplete

/-- A call is made when no other is running, and the pump stops once `done` is set. -/
def step (s : RxSystem) : Act → Option RxSystem
  | .receive count =>
    match s.caller with
    | .idle => if count < 2 ^ 32 then some { s with caller := .loop count 0 [] [] } else none
    | _ => none
  | .receiveStep => s.receiveStep
  | .flush =>
    match s.caller with
    | .idle => some { s with client := s.client.flush }
    | _ => none
  | .readDataStart =>
    match s.pump with
    | .idle =>
      if s.client.buffer.done then none
      else
        let (buffer, pump) := s.client.buffer.readDataStart
        some { s with client.buffer := buffer, pump := pump }
    | _ => none
  | .got res =>
    match s.pump with
    | .holding r =>
      let (buffer, pump) := s.client.buffer.readDataGot res
      match res with
      | .data n =>
        if n ≤ r.maxAmt ∧ n ≤ s.incoming.length then
          some { s with
            client.buffer := buffer, pump := pump
            mem := s.mem.store r.ptr (s.incoming.take n)
            incoming := s.incoming.drop n, received := s.received ++ s.incoming.take n }
        else none
      | _ => some { s with client.buffer := buffer, pump := pump }
    | _ => none
  | .readDataComplete =>
    match s.pump with
    | .got rval =>
      some { s with client.buffer := s.client.buffer.readDataComplete rval, pump := .idle }
    | _ => none

end RxSystem
end Avs4000
