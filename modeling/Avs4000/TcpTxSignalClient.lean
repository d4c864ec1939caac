import Avs4000.Lib.Run
import Avs4000.SocketTxBuffer
import Avs4000.V49Packet

namespace Avs4000
open Memory
set_option autoImplicit true

/-- A client with `useV49` set. -/
structure TcpTxSignalClient where
  buffer : SocketTxBuffer
  packet : V49Packet
  plen : Nat
  nextFrameCount : UInt16
  nextPacketCount : UInt8
  dn : UInt8

/-- Where the calling thread stands in `Send`. Each point is followed by at most one operation
on the shared ring. -/
inductive SendPc
  | idle
  | loop (data : List UInt8) (sent : Nat)
  | ready (data : List UInt8) (sent : Nat)
  | forced (data : List UInt8) (sent : Nat) (max : Nat)
  | restart (data : List UInt8) (sent : Nat) (max : Nat)
  | attach (data : List UInt8) (sent : Nat) (buf : Addr)
  | fill (data : List UInt8) (sent : Nat)
  | filled (data : List UInt8) (sent : Nat) (amt : Nat)
  | fault

/-- The client, its caller and the pump of its buffer. `wire` is what `::send` has accepted and
`sends` lists the finished calls of `Send` with their results. -/
structure TxSystem where
  client : TcpTxSignalClient
  mem : Mem UInt8
  caller : SendPc
  pump : WriteDataPc
  wire : List UInt8
  sends : List (List UInt8 × Nat)

namespace TcpTxSignalClient

def pktSize : Nat := 0x2000

def new (dn : UInt8) (blkSize blkCount : Nat) : TcpTxSignalClient where
  buffer := .new blkSize blkCount
  packet := .new
  plen := 0
  nextFrameCount := 0
  nextPacketCount := 0
  dn := dn

def flush (c : TcpTxSignalClient) : TcpTxSignalClient :=
  { c with buffer := c.buffer.reset, plen := 0 }

def slen (c : TcpTxSignalClient) : Nat := c.packet.samplesLen * 4

def attach (c : TcpTxSignalClient) (m : Mem UInt8) (buf : Addr) : TcpTxSignalClient × Mem UInt8 :=
  let (packet, m, nextFrameCount, nextPacketCount) :=
    c.packet.attach m c.dn 0 buf pktSize c.nextFrameCount c.nextPacketCount
  ({ c with
      packet := packet, nextFrameCount := nextFrameCount, nextPacketCount := nextPacketCount }, m)

/-- The number of bytes the next `memcpy` of `Send` moves. -/
def sendAmt (c : TcpTxSignalClient) (data : List UInt8) (sent : Nat) : Nat :=
  if data.length - sent > c.slen - c.plen then c.slen - c.plen else data.length - sent

/-- The end of a turn of the loop in `Send`. -/
def complete (c : TcpTxSignalClient) : TcpTxSignalClient :=
  if c.plen = c.slen then { c with buffer := c.buffer.sendComplete pktSize, plen := 0 } else c

end TcpTxSignalClient

namespace TxSystem
open TcpTxSignalClient

def init (dn : UInt8) (blkSize blkCount : Nat) : TxSystem where
  client := .new dn blkSize blkCount
  mem _ := 0
  caller := .idle
  pump := .idle
  wire := []
  sends := []

/-- `Send` returns. -/
def ret (s : TxSystem) (data : List UInt8) (sent : Nat) : TxSystem :=
  { s with caller := .idle, sends := s.sends ++ [(data, sent)] }

/-- The next step of `Send`. The local `max` starts out uninitialised, as `junk`. -/
def sendStep (s : TxSystem) (junk : Nat) : Option TxSystem :=
  match s.caller with
  | .idle | .fault => none
  | .loop data sent => some <|
    if sent < data.length then
      if s.client.plen = 0 then
        if s.client.buffer.waitForReadySend then { s with caller := .ready data sent }
        else s.ret data sent
      else { s with caller := .fill data sent }
    else s.ret data sent
  | .ready data sent =>
    let (buffer, buf) := s.client.buffer.sendStart
    let max := (buf.map Region.maxAmt).getD junk
    let s := { s with client.buffer := buffer }
    some <|
      if max < pktSize then { s with caller := .forced data sent max }
      else match buf with
        | none => s.ret data sent
        | some r => { s with caller := .attach data sent r.ptr }
  | .forced data sent max =>
    some { s with
      client.buffer := s.client.buffer.sendComplete 0, caller := .restart data sent max }
  | .restart data sent max =>
    let (buffer, buf) := s.client.buffer.sendStart
    let max := (buf.map Region.maxAmt).getD max
    let s := { s with client.buffer := buffer }
    some <|
      if max < pktSize then s.ret data sent
      else match buf with
        | none => s.ret data sent
        | some r => { s with caller := .attach data sent r.ptr }
  | .attach data sent buf =>
    let (client, mem) := s.client.attach s.mem buf
    some { s with client := client, mem := mem, caller := .fill data sent }
  | .fill data sent =>
    match s.client.packet.sampleBuffer with
    | none => some { s with caller := .fault }
    | some sbuf =>
      let amt := s.client.sendAmt data sent
      some { s with
        client.plen := s.client.plen + amt
        mem := s.mem.store (sbuf + s.client.plen) ((data.drop sent).take amt)
        caller := .filled data sent amt }
  | .filled data sent amt =>
    some { s with client := s.client.complete, caller := .loop data (sent + amt) }

inductive Act
  | send (data : List UInt8)
  | sendStep (junk : Nat)
  | flush
  | writeDataStart
  | sent (res : SendResult)
  | writeDataComplete

/-- A call is made when no other is running, and the pump stops once `done` is set. `ReadStart` is
one step here, and `TxLocks` takes it apart. -/
def step (s : TxSystem) : Act → Option TxSystem
  | .send data =>
    match s.caller with
    | .idle =>
      if 0 < data.length ∧ data.length < 2 ^ 32 then some { s with caller := .loop data 0 }
      else none
    | _ => none
  | .sendStep junk => s.sendStep junk
  | .flush =>
    match s.caller with
    | .idle => some { s with client := s.client.flush }
    | _ => none
  | .writeDataStart =>
    match s.pump with
    | .idle =>
      if s.client.buffer.done then none
      else
        let (buffer, pump) := s.client.buffer.writeDataStart
        some { s with client.buffer := buffer, pump := pump }
    | _ => none
  | .sent res =>
    match s.pump with
    | .holding r =>
      let (buffer, pump) := s.client.buffer.writeDataSent res
      match res with
      | .accepted n =>
        if n ≤ r.maxAmt then
          some { s with
            client.buffer := buffer, pump := pump, wire := s.wire ++ s.mem.load r.ptr n }
        else none
      | _ => some { s with client.buffer := buffer, pump := pump }
    | _ => none
  | .writeDataComplete =>
    match s.pump with
    | .sent rval =>
      some { s with client.buffer := s.client.buffer.writeDataComplete rval, pump := .idle }
    | _ => none

end TxSystem
end Avs4000
