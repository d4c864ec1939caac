import Avs4000.BlockFifo

namespace Avs4000
open Memory
set_option autoImplicit true

/-- An attached buffer: its socket is open. -/
structure SocketRxBuffer where
  transferred : UInt64
  received : UInt64
  fifo : BlockFifo
  done : Bool

/-- What `::recv` may return. Receiving zero bytes is the end of file. -/
inductive RecvResult
  | again
  | error
  | data (n : Nat)

/-- Where the pump thread stands in `ReadData`. -/
inductive ReadDataPc
  | idle
  | holding (r : Region)
  | got (rval : Nat)

namespace SocketRxBuffer

def new (blkSize blkCount : Nat) : SocketRxBuffer := ⟨0, 0, .new blkSize blkCount, false⟩

def reset (b : SocketRxBuffer) : SocketRxBuffer :=
  { b with transferred := 0, received := 0, fifo := b.fifo.reset }

def waitForReadyReceive (b : SocketRxBuffer) : Bool := !decide b.fifo.empty

def receiveStart (b : SocketRxBuffer) : SocketRxBuffer × Option Region :=
  ({ b with fifo := b.fifo.readStart.1 }, b.fifo.readStart.2)

def receiveComplete (b : SocketRxBuffer) (amt : Nat) : SocketRxBuffer :=
  { b with fifo := b.fifo.readComplete amt, transferred := b.transferred + UInt64.ofNat amt }

/-- The first part of a turn of the loop in `ReadData`, up to the region to receive into. -/
def readDataStart (b : SocketRxBuffer) : SocketRxBuffer × ReadDataPc :=
  match b.fifo.writeStart with
  | (f, none) => ({ b with fifo := f }, .idle)
  | (f, some r) => ({ b with fifo := f }, .holding r)

/-- What `ReadData` makes of the result of `::recv`. -/
def readDataGot (b : SocketRxBuffer) : RecvResult → SocketRxBuffer × ReadDataPc
  | .again => (b, .idle)
  | .error | .data 0 => ({ b with done := true }, .idle)
  | .data (n + 1) => (b, .got (n + 1))

/-- The rest of a turn, after bytes were received. -/
def readDataComplete (b : SocketRxBuffer) (rval : Nat) : SocketRxBuffer :=
  { b with fifo := b.fifo.writeComplete rval, transferred := b.transferred + UInt64.ofNat rval }

@[simp] theorem receiveComplete_fifo (b : SocketRxBuffer) (amt : Nat) :
    (b.receiveComplete amt).fifo = b.fifo.readComplete amt := rfl

@[simp] theorem receiveComplete_done (b : SocketRxBuffer) (amt : Nat) :
    (b.receiveComplete amt).done = b.done := rfl

end SocketRxBuffer
end Avs4000
