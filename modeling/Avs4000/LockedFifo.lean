import Avs4000.BlockFifoRefinement

namespace Avs4000
open Memory BlockFifo
set_option autoImplicit true

/-- Where a thread stands in the calls of its side of the ring, each point in front of one stretch
of code that runs under `mutex`. -/
inductive FifoPc
  | idle
  | holds
  | wait (msTimeout : Nat)
  | asleep (notified : Bool)
  | take
  | complete (amt : Nat)
  | failed

/-- `notify_one`, with one thread on each condition. -/
def FifoPc.notify : FifoPc → FifoPc
  | .asleep _ => .asleep true
  | pc => pc

/-- The two threads on a `BlockFifo` with the condition variables, at the grain of its locks. -/
structure LockedFifo where
  clients : FifoClients
  writer : FifoPc
  reader : FifoPc

namespace LockedFifo

def init (blkSize blkCount : Nat) : LockedFifo := ⟨.init blkSize blkCount, .idle, .idle⟩

/-- `WriteStart` returns null. -/
def writeNull (s : LockedFifo) : LockedFifo := { s with clients.wr := none, writer := .idle }

def readNull (s : LockedFifo) : LockedFifo := { s with clients.rd := none, reader := .idle }

/-- What the writer does next under the lock. A null pointer that it follows, or an assertion that
does not hold, is the end of it. -/
def writerStep (s : LockedFifo) : Option LockedFifo :=
  let f := s.clients.fifo
  match s.writer with
  | .idle | .asleep _ | .failed => none
  | .holds =>
    match f.outBlk with
    | none => some { s with writer := .failed }
    | some o => some { s with
        clients.wr := some ⟨(f.blk o).buf + (f.blk o).len, (f.blk o).size - (f.blk o).len⟩
        writer := .idle }
  | .wait msTimeout =>
    if !decide f.full then some { s with writer := .take }
    else if msTimeout > 0 then some { s with writer := .asleep false }
    else some s.writeNull
  | .take =>
    let f := { f.setBlk f.head (f.blk f.head).reset with outBlk := some f.head }
    some { s with
      clients.fifo := f, clients.wr := some ⟨(f.blk f.head).buf, (f.blk f.head).size⟩
      writer := .idle }
  | .complete amt =>
    if f.outBlk.any fun o => (f.blk o).size - (f.blk o).len < amt then
      some { s with writer := .failed }
    else
      let f' := f.writeComplete amt
      let bs := (s.clients.wr.map fun r => s.clients.mem.load r.ptr amt).getD []
      some { s with
        clients.fifo := f', clients.wr := none, clients.written := s.clients.written ++ bs
        writer := .idle
        -- the notification comes where `outBlk` is set to null
        reader := if f.outBlk.isSome && f'.outBlk.isNone then s.reader.notify else s.reader }

/-- The writer comes back from `wait_for`, which takes the lock again. -/
def writerWake (s : LockedFifo) (timedOut : Bool) : Option LockedFifo :=
  match s.writer with
  | .asleep _ =>
    if !decide s.clients.fifo.full then some { s with writer := .take }
    else if timedOut then some s.writeNull
    else some { s with writer := .asleep false }
  | _ => none

def readerStep (s : LockedFifo) : Option LockedFifo :=
  let f := s.clients.fifo
  match s.reader with
  | .idle | .asleep _ | .failed => none
  | .holds =>
    if f.count = 0 then some { s with reader := .failed }
    else
      match f.inBlk with
      | none => some { s with reader := .failed }
      | some i => some { s with
          clients.rd := some ⟨(f.blk i).buf + (f.blk i).read, (f.blk i).len - (f.blk i).read⟩
          reader := .idle }
  | .wait msTimeout =>
    if !decide f.empty then some { s with reader := .take }
    else if msTimeout > 0 then some { s with reader := .asleep false }
    else some s.readNull
  | .take =>
    if f.count = 0 then some { s with reader := .failed }
    else some { s with
      clients.fifo := { f with inBlk := some f.tail }
      clients.rd := some ⟨(f.blk f.tail).buf, (f.blk f.tail).len⟩
      reader := .idle }
  | .complete amt =>
    if f.inBlk.any fun i => f.count = 0 ∨ (f.blk i).len < (f.blk i).read + amt then
      some { s with reader := .failed }
    else
      let f' := f.readComplete amt
      let bs := (s.clients.rd.map fun r => s.clients.mem.load r.ptr amt).getD []
      some { s with
        clients.fifo := f', clients.rd := none, clients.consumed := s.clients.consumed ++ bs
        reader := .idle
        writer := if f.inBlk.isSome && f'.inBlk.isNone then s.writer.notify else s.writer }

def readerWake (s : LockedFifo) (timedOut : Bool) : Option LockedFifo :=
  match s.reader with
  | .asleep _ =>
    if !decide s.clients.fifo.empty then some { s with reader := .take }
    else if timedOut then some s.readNull
    else some { s with reader := .asleep false }
  | _ => none

inductive Act
  | writeStart (msTimeout : Nat)
  | fill (off : Nat) (bs : List UInt8)
  | writeComplete (amt : Nat)
  | writerStep
  | writerWake (timedOut : Bool)
  | readStart (msTimeout : Nat)
  | readComplete (amt : Nat)
  | readerStep
  | readerWake (timedOut : Bool)
  | reset

/-- `WriteStart` and `ReadStart` look at `outBlk` and `inBlk` before they take the lock. A wait may
end without a notification. -/
def step (s : LockedFifo) : Act → Option LockedFifo
  | .writeStart msTimeout =>
    match s.writer with
    | .idle => some { s with
        writer := if s.clients.fifo.outBlk.isSome then .holds else .wait msTimeout }
    | _ => none
  | .fill off bs =>
    match s.writer with
    | .idle => (s.clients.step (.fill off bs)).map fun c => { s with clients := c }
    | _ => none
  | .writeComplete amt =>
    match s.writer with
    | .idle => s.clients.wr.bind fun r =>
      if amt ≤ r.maxAmt then some { s with writer := .complete amt } else none
    | _ => none
  | .writerStep => s.writerStep
  | .writerWake timedOut => s.writerWake timedOut
  | .readStart msTimeout =>
    match s.reader with
    | .idle => some { s with
        reader := if s.clients.fifo.inBlk.isSome then .holds else .wait msTimeout }
    | _ => none
  | .readComplete amt =>
    match s.reader with
    | .idle => s.clients.rd.bind fun r =>
      if amt ≤ r.maxAmt then some { s with reader := .complete amt } else none
    | _ => none
  | .readerStep => s.readerStep
  | .readerWake timedOut => s.readerWake timedOut
  | .reset => some { s with clients.fifo := s.clients.fifo.reset }

/-- The call of the clients that a step takes effect as, if it does. -/
def effect (s : LockedFifo) : Act → Option FifoClients.Act
  | .fill off bs => some (.fill off bs)
  | .writerStep =>
    match s.writer with
    | .holds | .take => some .writeStart
    | .wait 0 => if s.clients.fifo.full then some .writeStart else none
    | .complete amt => some (.writeComplete amt)
    | _ => none
  | .writerWake timedOut =>
    if timedOut = true ∧ s.clients.fifo.full then some .writeStart else none
  | .readerStep =>
    match s.reader with
    | .holds | .take => some .readStart
    | .wait 0 => if s.clients.fifo.empty then some .readStart else none
    | .complete amt => some (.readComplete amt)
    | _ => none
  | .readerWake timedOut =>
    if timedOut = true ∧ s.clients.fifo.empty then some .readStart else none
  | .writeStart _ | .writeComplete _ | .readStart _ | .readComplete _ | .reset => none

end LockedFifo
end Avs4000
