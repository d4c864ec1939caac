import Avs4000.AVS4000Client
import Avs4000.Lib.Run
import Avs4000.SocketRxBuffer
import Avs4000.SocketTxBuffer
import Mathlib.Logic.Function.Basic

namespace Avs4000
open Memory
set_option autoImplicit true

/-- The buffer of a signal client. -/
inductive SocketBuffer
  | rx (b : SocketRxBuffer)
  | tx (b : SocketTxBuffer)

/-- Where a pump thread stands in `Pump` and in `ReadData` or `WriteData`: before the test for a
valid socket, at the test of `done` of the outer loop, in `select`, at the test of `done` of the
inner loop, past it, and before and after the ring learns what was moved. -/
inductive PumpPc
  | start
  | loop
  | select
  | inner
  | begin
  | holding (r : Region)
  | moved (rval : Nat)

/-- The statements that start and stop a pump. `socket` and `connect` are in `Prog`. -/
inductive Stmt
  | setDone (done : Bool)
  | join
  | setFd
  | clearFd
  | reset
  | sockopt
  | spawn
  | close
  | clearSock

/-- What is left of a constructor or destructor. -/
inductive Prog
  | done
  | stmt (st : Stmt) (p : Prog)
  | ifSocket (p q : Prog)
  | ifConnect (p q : Prog)
  | ifSock (p q : Prog)

/-- Who opened a descriptor. -/
inductive Opener
  | client (i : Nat)
  | other
  deriving DecidableEq

abbrev Table := Nat → Option Opener

/-- A signal client with its thread. The thread has ended when `pump` is `none`, and it is
`joinable` until it has been joined. -/
structure TcpSignalClient where
  alive : Bool
  prog : Prog
  sock : Option Nat
  fd : Option Nat
  buffer : SocketBuffer
  joinable : Bool
  pump : Option PumpPc

namespace SocketRxBuffer

/-- A step of the pump, where `select` and `::recv` return `ready` and `res`. -/
def pump (fd : Option Nat) (ready : Bool) (res : RecvResult) (b : SocketRxBuffer) :
    PumpPc → SocketRxBuffer × Option PumpPc
  | .start => (b, if fd.isNone then none else some .loop)
  | .loop => (b, if b.done then none else some .select)
  | .select => (b, some (if ready then .inner else .loop))
  | .inner => (b, some (if b.done then .loop else .begin))
  | .begin =>
    if fd.isNone then (b, some .loop)
    else
      match b.readDataStart with
      | (b, .holding r) => (b, some (.holding r))
      | (b, _) => (b, some .loop)
  | .holding _ =>
    match b.readDataGot res with
    | (b, .got rval) => (b, some (.moved rval))
    | (b, _) => (b, some .loop)
  | .moved rval => (b.readDataComplete rval, some .inner)

end SocketRxBuffer

namespace SocketTxBuffer

/-- A step of the pump, where `select` and `::send` return `ready` and `res`. Nothing to send and
`EAGAIN` lead back to the inner loop, and bytes sent lead out of it. -/
def pump (fd : Option Nat) (ready : Bool) (res : SendResult) (b : SocketTxBuffer) :
    PumpPc → SocketTxBuffer × Option PumpPc
  | .start => (b, if fd.isNone then none else some .loop)
  | .loop => (b, if b.done then none else some .select)
  | .select => (b, some (if ready then .inner else .loop))
  | .inner => (b, some (if b.done then .loop else .begin))
  | .begin =>
    if fd.isNone then (b, some .loop)
    else
      match b.writeDataStart with
      | (b, .holding r) => (b, some (.holding r))
      | (b, _) => (b, some .inner)
  | .holding _ =>
    match res with
    | .again => (b, some .inner)
    | _ =>
      match b.writeDataSent res with
      | (b, .sent rval) => (b, some (.moved rval))
      | (b, _) => (b, some .loop)
  | .moved rval => (b.writeDataComplete rval, some .loop)

end SocketTxBuffer

namespace SocketBuffer

def new (blkSize blkCount : Nat) : Dir → SocketBuffer
  | .rx => rx (.new blkSize blkCount)
  | .tx => tx (.new blkSize blkCount)

def dir : SocketBuffer → Dir
  | rx _ => .rx
  | tx _ => .tx

def done : SocketBuffer → Bool
  | rx b => b.done
  | tx b => b.done

def setDone (v : Bool) : SocketBuffer → SocketBuffer
  | rx b => rx { b with done := v }
  | tx b => tx { b with done := v }

def reset : SocketBuffer → SocketBuffer
  | rx b => rx b.reset
  | tx b => tx b.reset

def pump (fd : Option Nat) (ready : Bool) (recv : RecvResult) (send : SendResult) (pc : PumpPc) :
    SocketBuffer → SocketBuffer × Option PumpPc
  | rx b => (rx (b.pump fd ready recv pc).1, (b.pump fd ready recv pc).2)
  | tx b => (tx (b.pump fd ready send pc).1, (b.pump fd ready send pc).2)

/-- What a caller leaves behind. The second counter is `received` or `sent`. -/
def called (fifo : BlockFifo) (transferred counter : UInt64) : SocketBuffer → SocketBuffer
  | rx b => rx { b with fifo := fifo, transferred := transferred, received := counter }
  | tx b => tx { b with fifo := fifo, transferred := transferred, sent := counter }

end SocketBuffer

namespace Prog

/-- `Detach` of either buffer, before `p`. -/
def detach : Dir → Prog → Prog
  | .rx, p => .stmt (.setDone true) (.stmt .join p)
  | .tx, p => .stmt (.setDone true) (.stmt .join (.stmt .clearFd p))

/-- `Attach` of either buffer, before `p`. -/
def attach : Dir → Prog → Prog
  | .rx, p => detach .rx (.stmt .setFd (.stmt .reset (.stmt (.setDone false)
      (.stmt .sockopt (.stmt .spawn p)))))
  | .tx, p => detach .tx (.stmt .setFd (.stmt (.setDone false) (.stmt .reset (.stmt .spawn p))))

/-- The constructor. -/
def construct (d : Dir) : Prog := .ifSocket (.ifConnect (attach d .done) .done) .done

/-- The destructor, with that of the buffer after it. -/
def destruct (d : Dir) : Prog :=
  .ifSock (detach d (.stmt .close (.stmt .clearSock (detach d .done)))) (detach d .done)

/-- The statements that are left, on the longest way. -/
def length : Prog → Nat
  | done => 0
  | stmt _ p => p.length + 1
  | ifSocket p q | ifConnect p q | ifSock p q => max p.length q.length + 1

end Prog

namespace TcpSignalClient

def new (d : Dir) (blkSize blkCount : Nat) : TcpSignalClient where
  alive := true
  prog := .construct d
  sock := none
  fd := none
  buffer := .new blkSize blkCount d
  joinable := false
  pump := none

/-- A statement, other than one that is blocked or ends the process. -/
def exec (c : TcpSignalClient) : Stmt → TcpSignalClient
  | .setDone v => { c with buffer := c.buffer.setDone v }
  | .join => { c with joinable := false }
  | .setFd => { c with fd := c.sock }
  | .clearFd => { c with fd := none }
  | .reset => { c with buffer := c.buffer.reset }
  | .sockopt => c
  | .spawn => { c with joinable := true, pump := some .start }
  | .close => c
  | .clearSock => { c with sock := none }

/-- `join` waits for the thread to end. -/
def Blocked (c : TcpSignalClient) : Stmt → Prop
  | .join => c.joinable = true ∧ c.pump.isSome = true
  | _ => False

instance (c : TcpSignalClient) (st : Stmt) : Decidable (c.Blocked st) := by
  cases st
  case join => exact inferInstanceAs (Decidable (_ ∧ _))
  all_goals exact inferInstanceAs (Decidable False)

/-- The assignment to a thread that is joinable ends the process. -/
def Terminates (c : TcpSignalClient) : Stmt → Prop
  | .spawn => c.joinable = true
  | _ => False

instance (c : TcpSignalClient) (st : Stmt) : Decidable (c.Terminates st) := by
  cases st
  case spawn => exact inferInstanceAs (Decidable (_ = _))
  all_goals exact inferInstanceAs (Decidable False)

/-- The descriptors after the statement. -/
def table (c : TcpSignalClient) (t : Table) : Stmt → Table
  | .close => c.sock.elim t fun h => Function.update t h none
  | _ => t

end TcpSignalClient

/-- The signal clients of a process, and its descriptors. -/
structure ThreadSystem where
  clients : List TcpSignalClient
  table : Table
  terminated : Bool

namespace ThreadSystem

def init : ThreadSystem := ⟨[], fun _ => none, false⟩

/-- `owner` is the thread that constructs and deletes client `i`, and `fd` and `connected` are what
`socket` and `connect` come up with. A caller may leave the ring and the counters as anything.
The rest of the process opens and closes descriptors, too. -/
inductive Act
  | construct (d : Dir) (blkSize blkCount : Nat)
  | delete (i : Nat)
  | owner (i : Nat) (fd : Option Nat) (connected : Bool)
  | pump (i : Nat) (ready : Bool) (recv : RecvResult) (send : SendResult)
  | call (i : Nat) (fifo : BlockFifo) (transferred counter : UInt64)
  | openOther (fd : Nat)
  | closeOther (fd : Nat)

def set (s : ThreadSystem) (i : Nat) (c : TcpSignalClient) : ThreadSystem :=
  { s with clients := s.clients.set i c }

/-- The next statement of a constructor or destructor. -/
def ownerStep (s : ThreadSystem) (i : Nat) (fd : Option Nat) (connected : Bool)
    (c : TcpSignalClient) : Option ThreadSystem :=
  match c.prog with
  | .done => none
  | .stmt st p =>
    if c.Blocked st then none
    else if c.Terminates st then some { s with terminated := true }
    else some { s.set i { c.exec st with prog := p } with table := c.table s.table st }
  | .ifSocket p q =>
    match fd with
    | none => some (s.set i { c with prog := q })
    | some h =>
      if s.table h = none then
        some { s.set i { c with sock := some h, prog := p } with
          table := Function.update s.table h (some (.client i)) }
      else none
  | .ifConnect p q => some (s.set i { c with prog := if connected then p else q })
  | .ifSock p q => some (s.set i { c with prog := if c.sock.isSome then p else q })

/-- A client is used and deleted after its constructor and before its destructor. -/
def step (s : ThreadSystem) (a : Act) : Option ThreadSystem :=
  if s.terminated then none
  else
    match a with
    | .construct d blkSize blkCount =>
      some { s with clients := s.clients ++ [.new d blkSize blkCount] }
    | .delete i => do
      let c ← s.clients[i]?
      match c.alive, c.prog with
      | true, .done => some (s.set i { c with alive := false, prog := .destruct c.buffer.dir })
      | _, _ => none
    | .owner i fd connected => do s.ownerStep i fd connected (← s.clients[i]?)
    | .pump i ready recv send => do
      let c ← s.clients[i]?
      let pc ← c.pump
      let (buffer, pump) := c.buffer.pump c.fd ready recv send pc
      some (s.set i { c with buffer := buffer, pump := pump })
    | .call i fifo transferred counter => do
      let c ← s.clients[i]?
      match c.alive, c.prog with
      | true, .done =>
        some (s.set i { c with buffer := c.buffer.called fifo transferred counter })
      | _, _ => none
    | .openOther h =>
      if s.table h = none then some { s with table := Function.update s.table h (some .other) }
      else none
    | .closeOther h =>
      if s.table h = some .other then some { s with table := Function.update s.table h none }
      else none

end ThreadSystem
end Avs4000
