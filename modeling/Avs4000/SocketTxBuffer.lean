import Avs4000.BlockFifo

namespace Avs4000
open Memory
set_option autoImplicit true

/-- An attached buffer: its socket is open. -/
structure SocketTxBuffer where
  transferred : UInt64
  sent : UInt64
  fifo : BlockFifo
  done : Bool

/-- What `::send` may return. Accepting zero bytes is the end of file. -/
inductive SendResult
  | again
  | error
  | accepted (n : Nat)

/-- Where the pump thread stands in `WriteData`. -/
inductive WriteDataPc
  | idle
  | holding (r : Region)
  | sent (rval : Nat)

namespace SocketTxBuffer

def new (blkSize blkCount : Nat) : SocketTxBuffer := ⟨0, 0, .new blkSize blkCount, false⟩

def reset (b : SocketTxBuffer) : SocketTxBuffer :=
  { b with transferred := 0, sent := 0, fifo := b.fifo.reset }

def waitForReadySend (b : SocketTxBuffer) : Bool := !decide b.fifo.full

def sendStart (b : SocketTxBuffer) : SocketTxBuffer × Option Region :=
  ({ b with fifo := b.fifo.writeStart.1 }, b.fifo.writeStart.2)

def sendComplete (b : SocketTxBuffer) (amt : Nat) : SocketTxBuffer :=
  { b with fifo := b.fifo.writeComplete amt, transferred := b.transferred + UInt64.ofNat amt }

@[simp] theorem sendComplete_fifo (b : SocketTxBuffer) (amt : Nat) :
    (b.sendComplete amt).fifo = b.fifo.writeComplete amt := rfl

@[simp] theorem sendComplete_done (b : SocketTxBuffer) (amt : Nat) :
    (b.sendComplete amt).done = b.done := rfl

/-- The first part of a turn of the loop in `WriteData`, up to the region to send from. -/
def writeDataStart (b : SocketTxBuffer) : SocketTxBuffer × WriteDataPc :=
  match b.fifo.readStart with
  | (f, none) => ({ b with fifo := f }, .idle)
  | (f, some r) => ({ b with fifo := f }, .holding r)

/-- What `WriteData` makes of the result of `::send`. -/
def writeDataSent (b : SocketTxBuffer) : SendResult → SocketTxBuffer × WriteDataPc
  | .again => (b, .idle)
  | .error | .accepted 0 => ({ b with done := true }, .idle)
  | .accepted (n + 1) => (b, .sent (n + 1))

/-- The rest of a turn, after bytes were sent. -/
def writeDataComplete (b : SocketTxBuffer) (rval : Nat) : SocketTxBuffer :=
  { b with fifo := b.fifo.readComplete rval, sent := b.sent + UInt64.ofNat rval }

end SocketTxBuffer
end Avs4000
