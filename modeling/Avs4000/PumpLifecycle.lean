import Avs4000.PumpThread

namespace Avs4000
set_option autoImplicit true

/-- What is known of a client at a point of a program, whatever its pump does: whether `sock` is
assigned and open, `fd` is `sock`, there may be a thread that is not joined, what `done` is, and
whether the buffer is as new. -/
structure Known where
  sock : Bool
  opened : Bool
  attached : Bool
  thread : Bool
  done : Option Bool
  pristine : Bool

namespace Known

/-- A statement is allowed by what is known, and leaves this behind. The pump of before has to be
gone for all that it looks at, and it has to be told to go before it is waited for. -/
def check (k : Known) : Stmt → Option Known
  | .setDone true => some { k with done := some true }
  | .setDone false => some { k with done := if k.thread then none else some false }
  | .join =>
    if k.thread = true ∧ k.done ≠ some true then none else some { k with thread := false }
  | .setFd =>
    if k.thread = false ∧ k.opened = true then some { k with attached := true } else none
  | .clearFd => if k.thread = false then some { k with attached := false } else none
  | .reset => if k.thread = false then some k else none
  | .sockopt => if k.attached = true ∧ k.opened = true then some k else none
  | .spawn =>
    if k.thread = false ∧ k.attached = true ∧ k.opened = true ∧ k.done = some false ∧
        k.pristine = true then
      some { k with thread := true, done := none, pristine := false }
    else none
  | .close =>
    if k.thread = false ∧ k.opened = true then some { k with opened := false } else none
  | .clearSock =>
    if k.thread = false ∧ k.opened = false then
      some { k with sock := false, attached := false }
    else none

/-- All statements of a program are allowed, and what is known at its end is as wanted. -/
def checks (post : Known → Bool) (k : Known) : Prog → Bool
  | .done => post k
  | .stmt st p =>
    match k.check st with
    | some k => checks post k p
    | none => false
  | .ifSocket p q =>
    !k.sock && !k.opened && !k.thread &&
      checks post { k with sock := true, opened := true, attached := false } p && checks post k q
  | .ifConnect p q => k.opened && checks post k p && checks post k q
  | .ifSock p q => if k.sock then checks post k p else checks post k q

/-- A client that can be used, or one that is gone. -/
def post (alive : Bool) (k : Known) : Bool :=
  if alive then k.sock == k.opened && (!k.thread || k.opened)
  else !k.sock && !k.opened && !k.thread

def new : Known := ⟨false, false, false, false, some false, true⟩

theorem checks_construct (d : Dir) : checks (post true) new (.construct d) = true := by
  cases d <;> rfl

theorem checks_destruct (d : Dir) (h : post true k = true) :
    checks (post false) k (.destruct d) = true := by
  obtain ⟨sock, opened, attached, thread, done, pristine⟩ := k
  cases sock with
  | false =>
    cases opened with
    | false =>
      cases thread with
      | false => cases d <;> rfl
      | true => cases h
    | true => cases h
  | true =>
    cases opened with
    | false => cases h
    | true => cases thread <;> cases d <;> rfl

end Known

/-- What is known is so. -/
structure Fits (t : Table) (i : Nat) (k : Known) (c : TcpSignalClient) : Prop where
  sock : c.sock.isSome = k.sock
  opened : k.opened = true → k.sock = true
  table : ∀ h, t h = some (.client i) ↔ k.opened = true ∧ c.sock = some h
  attached : k.attached = true → c.fd = c.sock
  thread : c.joinable = true → k.thread = true
  pump : c.pump.isSome = true → c.joinable = true ∧ k.opened = true ∧ c.fd = c.sock
  done : ∀ v, k.done = some v → c.buffer.done = v
  stays : k.thread = true → k.done ≠ some false
  pristine : k.pristine = true → k.thread = false ∧
    ∃ blkSize blkCount d, c.buffer.setDone false = .new blkSize blkCount d

namespace SocketBuffer
variable {b : SocketBuffer}

@[simp] theorem setDone_done (v : Bool) (b : SocketBuffer) : (b.setDone v).done = v := by
  cases b <;> rfl

@[simp] theorem setDone_setDone (v w : Bool) (b : SocketBuffer) :
    (b.setDone v).setDone w = b.setDone w := by
  cases b <;> rfl

@[simp] theorem reset_done (b : SocketBuffer) : b.reset.done = b.done := by
  cases b <;> rfl

theorem reset_setDone (v : Bool) (b : SocketBuffer) :
    b.reset.setDone v = (b.setDone v).reset := by
  cases b <;> rfl

@[simp] theorem called_done (fifo : BlockFifo) (transferred counter : UInt64)
    (b : SocketBuffer) : (b.called fifo transferred counter).done = b.done := by
  cases b <;> rfl

theorem setDone_self (h : b.done = v) : b.setDone v = b := by
  subst h
  cases b <;> rfl

theorem reset_new (blkSize blkCount : Nat) (d : Dir) :
    (new blkSize blkCount d).reset = new blkSize blkCount d := by
  have hblk : (BlockFifo.new blkSize blkCount).reset.blk = (BlockFifo.new blkSize blkCount).blk :=
    funext fun _ => ite_self _
  have hring : (BlockFifo.new blkSize blkCount).reset = .new blkSize blkCount :=
    congrArg (fun blk => { BlockFifo.new blkSize blkCount with blk := blk }) hblk
  cases d with
  | rx => exact congrArg (fun f => rx ⟨0, 0, f, false⟩) hring
  | tx => exact congrArg (fun f => tx ⟨0, 0, f, false⟩) hring

end SocketBuffer

theorem SocketRxBuffer.readDataStart_done (b : SocketRxBuffer) :
    b.readDataStart.1.done = b.done := by
  rw [readDataStart]
  split <;> rfl

theorem SocketTxBuffer.writeDataStart_done (b : SocketTxBuffer) :
    b.writeDataStart.1.done = b.done := by
  rw [writeDataStart]
  split <;> rfl

theorem SocketRxBuffer.pump_done {b : SocketRxBuffer} (h : b.done = true) (pc : PumpPc) :
    (b.pump fd ready res pc).1.done = true := by
  cases pc with
  | begin =>
    have hstart := b.readDataStart_done.trans h
    rw [pump]
    split
    · exact h
    · split <;> simpa only [*] using hstart
  | holding r =>
    cases res with
    | data n => cases n with
      | zero => rfl
      | succ n => exact h
    | again => exact h
    | error => rfl
  | _ => exact h

theorem SocketTxBuffer.pump_done {b : SocketTxBuffer} (h : b.done = true) (pc : PumpPc) :
    (b.pump fd ready res pc).1.done = true := by
  cases pc with
  | begin =>
    have hstart := b.writeDataStart_done.trans h
    rw [pump]
    split
    · exact h
    · split <;> simpa only [*] using hstart
  | holding r =>
    cases res with
    | accepted n => cases n with
      | zero => rfl
      | succ n => exact h
    | again => exact h
    | error => rfl
  | _ => exact h

theorem SocketBuffer.pump_done {b : SocketBuffer} (h : b.done = true) (pc : PumpPc) :
    (b.pump fd ready recv send pc).1.done = true := by
  cases b with
  | rx b => exact SocketRxBuffer.pump_done (b := b) h pc
  | tx b => exact SocketTxBuffer.pump_done (b := b) h pc

namespace Fits
open TcpSignalClient
variable {t : Table} {k k' : Known} {c : TcpSignalClient}

theorem frame (h : Fits t i k c) (ht : ∀ fd, t' fd = some (.client i) ↔ t fd = some (.client i)) :
    Fits t' i k c :=
  { h with table := fun fd => (ht fd).trans (h.table fd) }

theorem prog (h : Fits t i k c) (p : Prog) : Fits t i k { c with prog := p } :=
  ⟨h.sock, h.opened, h.table, h.attached, h.thread, h.pump, h.done, h.stays, h.pristine⟩

theorem alive (h : Fits t i k c) (v : Bool) : Fits t i k { c with alive := v } :=
  ⟨h.sock, h.opened, h.table, h.attached, h.thread, h.pump, h.done, h.stays, h.pristine⟩

theorem no_pump (h : Fits t i k c) (hk : k.thread = false) : c.pump = none := by
  cases hp : c.pump with
  | none => rfl
  | some pc =>
    have hthread := h.thread (h.pump (hp ▸ rfl)).1
    cases hk.symm.trans hthread

theorem not_joinable (h : Fits t i k c) (hk : k.thread = false) : c.joinable = false := by
  apply Bool.eq_false_iff.2
  intro hj
  cases hk.symm.trans (h.thread hj)

theorem pump_isSome (h : Fits t i k c) (hk : k.thread = false) : c.pump.isSome ≠ true := by
  rw [h.no_pump hk]
  exact Bool.noConfusion

theorem pristine_setDone (h : Fits t i k c) (v : Bool) (hp : k.pristine = true) :
    k.thread = false ∧ ∃ blkSize blkCount d,
      (c.buffer.setDone v).setDone false = .new blkSize blkCount d := by
  rw [SocketBuffer.setDone_setDone]
  exact h.pristine hp

theorem setDone_true (h : Fits t i k c) :
    Fits t i { k with done := some true } (c.exec (.setDone true)) := by
  refine ⟨h.sock, h.opened, h.table, h.attached, h.thread, h.pump, ?_, ?_, h.pristine_setDone true⟩
  · intro v hv
    cases hv
    exact SocketBuffer.setDone_done ..
  · intro _ hd
    cases hd

theorem setDone_false (h : Fits t i k c) :
    Fits t i { k with done := if k.thread then none else some false }
      (c.exec (.setDone false)) := by
  refine ⟨h.sock, h.opened, h.table, h.attached, h.thread, h.pump, ?_, ?_,
    h.pristine_setDone false⟩
  · intro v hv
    dsimp only at hv
    split at hv
    · cases hv
    · cases hv
      exact SocketBuffer.setDone_done ..
  · intro hthread hd
    change k.thread = true at hthread
    simp only [hthread, if_true, reduceCtorEq] at hd

theorem join (h : Fits t i k c) (hb : ¬c.Blocked .join) :
    Fits t i { k with thread := false } (c.exec .join) := by
  have hpump : c.pump = none := by
    cases hp : c.pump with
    | none => rfl
    | some pc => exact absurd ⟨(h.pump (hp ▸ rfl)).1, hp ▸ rfl⟩ hb
  refine ⟨h.sock, h.opened, h.table, h.attached, fun hj => (by cases hj), ?_, h.done,
    fun hj => (by cases hj), fun hp => ⟨rfl, (h.pristine hp).2⟩⟩
  intro hp
  change c.pump.isSome = true at hp
  rw [hpump] at hp
  cases hp

theorem setFd (h : Fits t i k c) : Fits t i { k with attached := true } (c.exec .setFd) := by
  refine ⟨h.sock, h.opened, h.table, fun _ => rfl, h.thread, ?_, h.done, h.stays, h.pristine⟩
  intro hp
  exact ⟨(h.pump hp).1, (h.pump hp).2.1, rfl⟩

theorem clearFd (h : Fits t i k c) (hk : k.thread = false) :
    Fits t i { k with attached := false } (c.exec .clearFd) :=
  ⟨h.sock, h.opened, h.table, fun ha => (by cases ha), h.thread,
    fun hp => absurd hp (h.pump_isSome hk), h.done, h.stays, h.pristine⟩

theorem reset (h : Fits t i k c) : Fits t i k (c.exec .reset) := by
  refine ⟨h.sock, h.opened, h.table, h.attached, h.thread, h.pump, ?_, h.stays, ?_⟩
  · intro v hv
    exact (SocketBuffer.reset_done _).trans (h.done v hv)
  · intro hp
    obtain ⟨hthread, blkSize, blkCount, d, hnew⟩ := h.pristine hp
    refine ⟨hthread, blkSize, blkCount, d, ?_⟩
    calc c.buffer.reset.setDone false
        = (c.buffer.setDone false).reset := SocketBuffer.reset_setDone ..
      _ = .new blkSize blkCount d := by rw [hnew, SocketBuffer.reset_new]

theorem spawn (h : Fits t i k c) (ha : k.attached = true) (ho : k.opened = true) :
    Fits t i { k with thread := true, done := none, pristine := false } (c.exec .spawn) := by
  refine ⟨h.sock, h.opened, h.table, h.attached, fun _ => rfl, ?_, ?_, ?_, ?_⟩
  · exact fun _ => ⟨rfl, ho, h.attached ha⟩
  · intro v hv
    cases hv
  · intro _ hd
    cases hd
  · intro hp
    cases hp

theorem close (h : Fits t i k c) (hk : k.thread = false) (ho : k.opened = true) :
    Fits (c.table t .close) i { k with opened := false } (c.exec .close) := by
  refine ⟨h.sock, fun ho => (by cases ho), ?_, h.attached, h.thread,
    fun hp => absurd hp (h.pump_isSome hk), h.done, h.stays, h.pristine⟩
  intro fd
  refine ⟨fun ht => ?_, fun ho => by cases ho.1⟩
  obtain ⟨sock, hsock⟩ := Option.isSome_iff_exists.1 (h.sock.trans (h.opened ho))
  rw [TcpSignalClient.table, hsock] at ht
  by_cases hfd : fd = sock
  · subst hfd
    simp only [Option.elim_some, Function.update_self, reduceCtorEq] at ht
  · simp only [Option.elim_some, Function.update_of_ne hfd] at ht
    have hsame := ((h.table fd).1 ht).2
    exact absurd (Option.some.inj (hsame.symm.trans hsock)) hfd

theorem clearSock (h : Fits t i k c) (hk : k.thread = false) (ho : k.opened = false) :
    Fits t i { k with sock := false, attached := false } (c.exec .clearSock) := by
  have hno : k.opened ≠ true := Bool.eq_false_iff.1 ho
  refine ⟨rfl, fun ho => absurd ho hno, ?_, fun ha => (by cases ha), h.thread,
    fun hp => absurd hp (h.pump_isSome hk), h.done, h.stays, h.pristine⟩
  intro fd
  exact (h.table fd).trans ⟨fun ho => absurd ho.1 hno, fun ho => absurd ho.1 hno⟩

/-- A statement that is allowed does not end the process, and what it leaves behind is so. -/
theorem exec (h : Fits t i k c) (hk : k.check st = some k') (hb : ¬c.Blocked st) :
    ¬c.Terminates st ∧ Fits (c.table t st) i k' (c.exec st) := by
  cases st with
  | setDone v =>
    cases v with
    | true =>
      cases hk
      exact ⟨id, h.setDone_true⟩
    | false =>
      cases hk
      exact ⟨id, h.setDone_false⟩
  | join =>
    obtain ⟨_, ⟨⟩⟩ := Option.ite_none_left_eq_some.1 hk
    exact ⟨id, h.join hb⟩
  | setFd =>
    obtain ⟨_, ⟨⟩⟩ := Option.ite_none_right_eq_some.1 hk
    exact ⟨id, h.setFd⟩
  | clearFd =>
    obtain ⟨hthread, ⟨⟩⟩ := Option.ite_none_right_eq_some.1 hk
    exact ⟨id, h.clearFd hthread⟩
  | reset =>
    obtain ⟨_, ⟨⟩⟩ := Option.ite_none_right_eq_some.1 hk
    exact ⟨id, h.reset⟩
  | sockopt =>
    obtain ⟨_, ⟨⟩⟩ := Option.ite_none_right_eq_some.1 hk
    exact ⟨id, h⟩
  | spawn =>
    obtain ⟨⟨hthread, hattached, hopened, _⟩, ⟨⟩⟩ := Option.ite_none_right_eq_some.1 hk
    exact ⟨Bool.eq_false_iff.1 (h.not_joinable hthread), h.spawn hattached hopened⟩
  | close =>
    obtain ⟨⟨hthread, hopened⟩, ⟨⟩⟩ := Option.ite_none_right_eq_some.1 hk
    exact ⟨id, h.close hthread hopened⟩
  | clearSock =>
    obtain ⟨⟨hthread, hopened⟩, ⟨⟩⟩ := Option.ite_none_right_eq_some.1 hk
    exact ⟨id, h.clearSock hthread hopened⟩

theorem pump_step (h : Fits t i k c) (hp : c.pump = some pc) (pc' : Option PumpPc) :
    Fits t i k { c with
      buffer := (c.buffer.pump c.fd ready recv send pc).1, pump := pc' } := by
  have hpump := h.pump (hp ▸ rfl)
  have hthread := h.thread hpump.1
  refine ⟨h.sock, h.opened, h.table, h.attached, h.thread, fun _ => hpump, ?_, h.stays, ?_⟩
  · intro v hv
    cases v with
    | true => exact SocketBuffer.pump_done (h.done true hv) pc
    | false => exact absurd hv (h.stays hthread)
  · intro hpr
    cases hthread.symm.trans (h.pristine hpr).1

theorem called (h : Fits t i k c) (fifo : BlockFifo) (transferred counter : UInt64) :
    Fits t i { k with pristine := false }
      { c with buffer := c.buffer.called fifo transferred counter } := by
  refine ⟨h.sock, h.opened, h.table, h.attached, h.thread, h.pump, ?_, h.stays,
    fun hp => by cases hp⟩
  intro v hv
  exact (SocketBuffer.called_done ..).trans (h.done v hv)

theorem table_frame (h : Fits t i k c) (hk : k.check st = some k') (hj : j ≠ i) (fd : Nat) :
    c.table t st fd = some (.client j) ↔ t fd = some (.client j) := by
  cases st with
  | close =>
    rw [TcpSignalClient.table]
    cases hsock : c.sock with
    | none => exact Iff.rfl
    | some sock =>
      rw [Option.elim_some]
      by_cases hfd : fd = sock
      · subst hfd
        rw [Known.check] at hk
        split at hk
        · next hclose =>
          have hopened := (h.table fd).2 ⟨hclose.2, hsock⟩
          rw [Function.update_self, hopened, Option.some_inj, Opener.client.injEq]
          exact ⟨fun ht => (by cases ht), fun ht => absurd ht.symm hj⟩
        · cases hk
      · rw [Function.update_of_ne hfd]
  | _ => exact Iff.rfl

theorem socket (h : Fits t i k c) (hk : k.thread = false) (ho : k.opened = false)
    (hn : t own = none) :
    Fits (Function.update t own (some (.client i))) i
      { k with sock := true, opened := true, attached := false } { c with sock := some own } := by
  refine ⟨rfl, fun _ => rfl, ?_, fun ha => (by cases ha), h.thread,
    fun hp => absurd hp (h.pump_isSome hk), h.done, h.stays, h.pristine⟩
  intro fd
  by_cases hfd : fd = own
  · subst hfd
    rw [Function.update_self]
    exact ⟨fun _ => ⟨rfl, rfl⟩, fun _ => rfl⟩
  · rw [Function.update_of_ne hfd, h.table fd]
    constructor
    · intro hc
      cases ho.symm.trans hc.1
    · intro hc
      exact absurd (Option.some.inj hc.2).symm hfd

end Fits

/-- A program that starts no pump and does not take `done` back. -/
def Prog.leaving : Prog → Bool
  | .done => true
  | .stmt .spawn _ | .stmt (.setDone false) _ | .ifSocket .. | .ifConnect .. => false
  | .stmt _ p => p.leaving
  | .ifSock p q => p.leaving && q.leaving

theorem Prog.leaving_destruct (d : Dir) : (destruct d).leaving = true := by
  cases d <;> rfl

theorem Prog.leaving_stmt (h : (Prog.stmt st p).leaving = true) :
    p.leaving = true ∧ st ≠ .spawn ∧ st ≠ .setDone false := by
  cases st with
  | setDone v =>
    cases v with
    | true => exact ⟨h, fun he => (by cases he), fun he => (by cases he)⟩
    | false => cases h
  | spawn => cases h
  | _ => exact ⟨h, fun he => (by cases he), fun he => (by cases he)⟩

namespace ThreadSystem
variable {s u : ThreadSystem}

/-- What is left of the program of a client is allowed by what is known of it. -/
def Ok (t : Table) (i : Nat) (c : TcpSignalClient) : Prop :=
  (∃ k, Fits t i k c ∧ k.checks (Known.post c.alive) c.prog = true) ∧
    (c.alive = false → c.prog.leaving = true)

structure Inv (s : ThreadSystem) : Prop where
  running : s.terminated = false
  ok : ∀ i c, s.clients[i]? = some c → Ok s.table i c
  lt : ∀ fd i, s.table fd = some (.client i) → i < s.clients.length

theorem getElem?_set {s : ThreadSystem} (h : (s.set i c).clients[j]? = some c') :
    j = i ∧ c' = c ∨ j ≠ i ∧ s.clients[j]? = some c' := by
  rw [set, List.getElem?_set] at h
  by_cases hij : i = j
  · subst hij
    rw [if_pos rfl] at h
    split at h
    · cases h
      exact .inl ⟨rfl, rfl⟩
    · cases h
  · rw [if_neg hij] at h
    exact .inr ⟨Ne.symm hij, h⟩

/-- One client takes a step, and the descriptors of the others stay. -/
theorem Inv.set (h : Inv s) (hc : s.clients[i]? = some c) (hok : Ok t i c')
    (ht : ∀ j, j ≠ i → ∀ fd, t fd = some (.client j) ↔ s.table fd = some (.client j)) :
    Inv { s.set i c' with table := t } where
  running := h.running
  ok j d hd := by
    rcases getElem?_set hd with ⟨rfl, rfl⟩ | ⟨hj, hd⟩
    · exact hok
    · obtain ⟨⟨k, hfits, hchecks⟩, hl⟩ := h.ok j d hd
      exact ⟨⟨k, hfits.frame (ht j hj), hchecks⟩, hl⟩
  lt fd j hj := by
    have hlen : (s.set i c').clients.length = s.clients.length := List.length_set ..
    change j < (s.set i c').clients.length
    rw [hlen]
    by_cases hij : j = i
    · subst hij
      exact (List.getElem?_eq_some_iff.1 hc).1
    · exact h.lt fd j ((ht j hij fd).1 hj)

theorem Inv.other (h : Inv s)
    (ht : ∀ i fd, t fd = some (.client i) ↔ s.table fd = some (.client i)) :
    Inv { s with table := t } where
  running := h.running
  ok i c hc := by
    obtain ⟨⟨k, hfits, hchecks⟩, hl⟩ := h.ok i c hc
    exact ⟨⟨k, hfits.frame (ht i), hchecks⟩, hl⟩
  lt fd i hi := h.lt fd i ((ht i fd).1 hi)

theorem update_client {t : Table} (o : Option Opener) (ho : ∀ i, o ≠ some (.client i))
    (ht : ∀ i, t sock ≠ some (.client i)) (i fd : Nat) :
    Function.update t sock o fd = some (.client i) ↔ t fd = some (.client i) := by
  by_cases hfd : fd = sock
  · subst hfd
    rw [Function.update_self]
    exact ⟨fun h => absurd h (ho i), fun h => absurd h (ht i)⟩
  · rw [Function.update_of_ne hfd]

theorem ownerStep_inv (h : Inv s) (hc : s.clients[i]? = some c)
    (hs : s.ownerStep i fd connected c = some u) : Inv u := by
  obtain ⟨⟨k, hfits, hchecks⟩, hl⟩ := h.ok i c hc
  rw [ownerStep] at hs
  cases hprog : c.prog with
  | done =>
    rw [hprog] at hs
    cases hs
  | stmt st p =>
    rw [hprog, Known.checks] at hchecks
    simp only [hprog] at hs
    cases hk : k.check st with
    | none =>
      rw [hk] at hchecks
      cases hchecks
    | some k' =>
      rw [hk] at hchecks
      split at hs
      · cases hs
      · next hblocked =>
        obtain ⟨hrun, hnext⟩ := hfits.exec hk hblocked
        rw [if_neg hrun] at hs
        cases hs
        have halive : (c.exec st).alive = c.alive := by cases st <;> rfl
        refine h.set hc ⟨⟨k', hnext.prog p, halive ▸ hchecks⟩, fun ha => ?_⟩
          fun j hj fd => hfits.table_frame hk hj fd
        have hleave := hl (halive.symm.trans ha)
        rw [hprog] at hleave
        exact (Prog.leaving_stmt hleave).1
  | ifSocket p q =>
    simp only [hprog, Known.checks, Bool.and_eq_true, Bool.not_eq_true'] at hchecks
    obtain ⟨⟨⟨⟨_, hopened⟩, hthread⟩, hp⟩, hq⟩ := hchecks
    simp only [hprog] at hs
    have hstay : c.alive ≠ false := by
      intro ha
      have hleave := hl ha
      rw [hprog] at hleave
      cases hleave
    cases fd with
    | none =>
      cases hs
      exact h.set hc ⟨⟨k, hfits.prog q, hq⟩, fun ha => absurd ha hstay⟩ fun _ _ _ => Iff.rfl
    | some sock =>
      dsimp only at hs
      split at hs
      · next hn =>
        cases hs
        refine h.set hc ⟨⟨_, (hfits.socket hthread hopened hn).prog p, hp⟩,
          fun ha => absurd ha hstay⟩ fun j hj fd => ?_
        by_cases hfd : fd = sock
        · subst hfd
          rw [Function.update_self, hn, Option.some_inj, Opener.client.injEq]
          exact ⟨fun hi => absurd hi.symm hj, fun hi => by cases hi⟩
        · rw [Function.update_of_ne hfd]
      · cases hs
  | ifConnect p q =>
    simp only [hprog, Known.checks, Bool.and_eq_true] at hchecks
    obtain ⟨⟨_, hp⟩, hq⟩ := hchecks
    simp only [hprog] at hs
    cases hs
    refine h.set hc ⟨⟨k, hfits.prog _, ?_⟩, fun ha => ?_⟩ fun _ _ _ => Iff.rfl
    · cases connected with
      | true => exact hp
      | false => exact hq
    · have hleave := hl ha
      rw [hprog] at hleave
      cases hleave
  | ifSock p q =>
    rw [hprog, Known.checks, ← hfits.sock] at hchecks
    simp only [hprog] at hs
    cases hs
    refine h.set hc ⟨⟨k, hfits.prog _, ?_⟩, fun ha => ?_⟩ fun _ _ _ => Iff.rfl
    · dsimp only
      split at hchecks
      · next hsock =>
        rw [if_pos hsock]
        exact hchecks
      · next hsock =>
        rw [if_neg hsock]
        exact hchecks
    · have hleave := hl ha
      rw [hprog, Prog.leaving, Bool.and_eq_true] at hleave
      dsimp only
      split
      · exact hleave.1
      · exact hleave.2

theorem pump_inv (h : Inv s) (hc : s.clients[i]? = some c) (hp : c.pump = some pc) :
    Inv (s.set i { c with
      buffer := (c.buffer.pump c.fd ready recv send pc).1
      pump := (c.buffer.pump c.fd ready recv send pc).2 }) := by
  obtain ⟨⟨k, hfits, hchecks⟩, hl⟩ := h.ok i c hc
  exact h.set hc ⟨⟨k, hfits.pump_step hp _, hchecks⟩, hl⟩ fun _ _ _ => Iff.rfl

theorem init_inv : Inv init where
  running := rfl
  ok i c hc := by
    rw [init, List.getElem?_nil] at hc
    cases hc
  lt fd i hi := by cases hi

theorem step_inv (h : Inv s) (hs : s.step a = some u) : Inv u := by
  unfold step at hs
  rw [if_neg (Bool.eq_false_iff.1 h.running)] at hs
  cases a with
  | construct d blkSize blkCount =>
    cases hs
    refine ⟨h.running, fun i c hc => ?_, fun fd i hi => ?_⟩
    · rcases Nat.lt_trichotomy i s.clients.length with hi | rfl | hi
      · rw [List.getElem?_append_left hi] at hc
        exact h.ok i c hc
      · rw [List.getElem?_concat_length] at hc
        cases hc
        refine ⟨⟨.new, ?_, Known.checks_construct d⟩, fun ha => by cases ha⟩
        refine ⟨rfl, fun ho => (by cases ho), fun fd => ?_, fun ha => (by cases ha),
          fun hj => (by cases hj), fun hp => (by cases hp), ?_, fun hj => (by cases hj), ?_⟩
        · refine ⟨fun hfd => absurd (h.lt fd _ hfd) (Nat.lt_irrefl _), fun ho => (by cases ho.1)⟩
        · intro v hv
          cases hv
          cases d <;> rfl
        · exact fun _ => ⟨rfl, blkSize, blkCount, d, by cases d <;> rfl⟩
      · have hlen := (List.getElem?_eq_some_iff.1 hc).1
        rw [List.length_append] at hlen
        exact absurd hlen (Nat.not_lt.2 hi)
    · rw [List.length_append]
      exact Nat.lt_add_right _ (h.lt fd i hi)
  | delete i =>
    obtain ⟨c, hc, hs⟩ := Option.bind_eq_some_iff.1 hs
    obtain ⟨⟨k, hfits, hchecks⟩, _⟩ := h.ok i c hc
    split at hs
    · next halive hprog =>
      cases hs
      rw [halive, hprog] at hchecks
      exact h.set hc ⟨⟨k, (hfits.prog _).alive false, Known.checks_destruct _ hchecks⟩,
        fun _ => Prog.leaving_destruct _⟩ fun _ _ _ => Iff.rfl
    · cases hs
  | owner i fd connected =>
    obtain ⟨c, hc, hs⟩ := Option.bind_eq_some_iff.1 hs
    exact ownerStep_inv h hc hs
  | pump i ready recv send =>
    obtain ⟨c, hc, hs⟩ := Option.bind_eq_some_iff.1 hs
    obtain ⟨pc, hp, hs⟩ := Option.bind_eq_some_iff.1 hs
    cases hs
    exact pump_inv h hc hp
  | call i fifo transferred counter =>
    obtain ⟨c, hc, hs⟩ := Option.bind_eq_some_iff.1 hs
    obtain ⟨⟨k, hfits, hchecks⟩, hl⟩ := h.ok i c hc
    split at hs
    · next halive hprog =>
      cases hs
      refine h.set hc ⟨⟨_, hfits.called fifo transferred counter, ?_⟩, hl⟩ fun _ _ _ => Iff.rfl
      rw [halive, hprog] at hchecks ⊢
      exact hchecks
    · cases hs
  | openOther own =>
    dsimp only at hs
    split at hs
    · next hn =>
      cases hs
      have hother : ∀ i, s.table own ≠ some (.client i) := by
        intro i ht
        cases hn.symm.trans ht
      exact h.other (update_client (some .other) (fun i ho => by cases ho) hother)
    · cases hs
  | closeOther own =>
    dsimp only at hs
    split at hs
    · next hn =>
      cases hs
      have hother : ∀ i, s.table own ≠ some (.client i) := by
        intro i ht
        cases hn.symm.trans ht
      exact h.other (update_client none (fun i ho => by cases ho) hother)
    · cases hs

theorem run_inv (hr : Sys.run step init as = some s) : Inv s :=
  Sys.run_invariant (fun _ _ _ h hs => step_inv h hs) init_inv hr


/-- What is shared with a pump is written while there is none. -/
def Exclusive : Stmt → Prop
  | .setDone _ | .join | .sockopt => False
  | _ => True

/-- The descriptor is open, and it was the client that opened it. -/
def Own (s : ThreadSystem) (i : Nat) (fd : Option Nat) : Prop :=
  ∃ h, fd = some h ∧ s.table h = some (.client i)

/-- A client and its pump do nothing to the descriptors of others, and nothing to each other. -/
structure Safe (s : ThreadSystem) (i : Nat) (c : TcpSignalClient) : Prop where
  pump : c.pump.isSome = true → s.Own i c.fd
  connect : ∀ p q, c.prog = .ifConnect p q → s.Own i c.sock
  sockopt : ∀ p, c.prog = .stmt .sockopt p → s.Own i c.fd
  close : ∀ p, c.prog = .stmt .close p → s.Own i c.sock
  exclusive : ∀ st p, c.prog = .stmt st p → Exclusive st → c.pump = none
  fresh : ∀ p, c.prog = .stmt .spawn p →
    s.Own i c.fd ∧ ∃ blkSize blkCount d, c.buffer = .new blkSize blkCount d
  usable : c.alive = true → c.prog = .done → ∀ h, s.table h = some (.client i) ↔ c.sock = some h
  gone : c.alive = false → c.prog = .done →
    c.pump = none ∧ c.joinable = false ∧ c.sock = none ∧ ∀ h, s.table h ≠ some (.client i)

theorem Fits.own (h : Fits s.table i k c) (hk : k.opened = true) : s.Own i c.sock := by
  obtain ⟨fd, hfd⟩ := Option.isSome_iff_exists.1 (h.sock.trans (h.opened hk))
  exact ⟨fd, hfd, (h.table fd).2 ⟨hk, hfd⟩⟩

theorem check_of_checks {k : Known} (h : k.checks post (.stmt st p) = true) :
    ∃ k', k.check st = some k' := by
  rw [Known.checks] at h
  split at h
  · next k' hk => exact ⟨k', hk⟩
  · cases h

theorem no_thread {k : Known} (hk : k.check st = some k') (he : Exclusive st) :
    k.thread = false := by
  cases st with
  | setDone v => exact he.elim
  | join => exact he.elim
  | sockopt => exact he.elim
  | _ =>
    rw [Known.check] at hk
    split at hk
    · next h => exact (by first | exact h | exact h.1)
    · cases hk

theorem Inv.safe (h : Inv s) (hc : s.clients[i]? = some c) : Safe s i c := by
  obtain ⟨⟨k, hfits, hchecks⟩, _⟩ := h.ok i c hc
  refine ⟨fun hp => ?_, fun p q hprog => ?_, fun p hprog => ?_, fun p hprog => ?_,
    fun st p hprog he => ?_, fun p hprog => ?_, fun ha hprog fd => ?_, fun ha hprog => ?_⟩
  · obtain ⟨_, hopened, hfd⟩ := hfits.pump hp
    exact hfd ▸ Fits.own hfits hopened
  · simp only [hprog, Known.checks, Bool.and_eq_true] at hchecks
    exact Fits.own hfits hchecks.1.1
  · rw [hprog] at hchecks
    obtain ⟨k', hk⟩ := check_of_checks hchecks
    rw [Known.check] at hk
    split at hk
    · next hs => exact hfits.attached hs.1 ▸ Fits.own hfits hs.2
    · cases hk
  · rw [hprog] at hchecks
    obtain ⟨k', hk⟩ := check_of_checks hchecks
    rw [Known.check] at hk
    split at hk
    · next hs => exact Fits.own hfits hs.2
    · cases hk
  · rw [hprog] at hchecks
    obtain ⟨k', hk⟩ := check_of_checks hchecks
    exact hfits.no_pump (no_thread hk he)
  · rw [hprog] at hchecks
    obtain ⟨k', hk⟩ := check_of_checks hchecks
    rw [Known.check] at hk
    split at hk
    · next hs =>
      obtain ⟨_, hattached, hopened, hdone, hpristine⟩ := hs
      obtain ⟨_, blkSize, blkCount, d, hnew⟩ := hfits.pristine hpristine
      refine ⟨hfits.attached hattached ▸ Fits.own hfits hopened, blkSize, blkCount, d, ?_⟩
      exact (SocketBuffer.setDone_self (hfits.done false hdone)).symm.trans hnew
    · cases hk
  · rw [hprog, ha, Known.checks, Known.post, if_pos rfl, Bool.and_eq_true, beq_iff_eq] at hchecks
    rw [hfits.table fd, ← hchecks.1, ← hfits.sock]
    exact ⟨fun hs => hs.2, fun hs => ⟨hs ▸ rfl, hs⟩⟩
  · simp only [hprog, ha, Known.checks, Known.post, Bool.false_eq_true, if_false,
      Bool.and_eq_true, Bool.not_eq_true'] at hchecks
    obtain ⟨⟨hsock, hopened⟩, hthread⟩ := hchecks
    refine ⟨hfits.no_pump hthread, hfits.not_joinable hthread, ?_, fun fd hfd => ?_⟩
    · exact Option.not_isSome_iff_eq_none.1 (Bool.eq_false_iff.1 (hfits.sock.trans hsock))
    · cases hopened.symm.trans ((hfits.table fd).1 hfd).1

/-- However clients are made, used and deleted and whatever the rest of the process does with its
descriptors, the process is not ended by the assignment to a joinable thread. A pump works on the
open socket of its own client from a ring as new until it ends, nothing it shares is written
without a join before, and a client that is gone leaves no pump and no descriptor behind. -/
theorem threads_safe (hr : Sys.run step init as = some s) :
    s.terminated = false ∧ ∀ i c, s.clients[i]? = some c → Safe s i c := by
  have h := run_inv hr
  exact ⟨h.running, fun i c hc => h.safe hc⟩

/-- A client is made and deleted, and its descriptor is given to another. -/
def reuse : List Act :=
  .construct .rx 2 2 :: .owner 0 (some 3) true :: List.replicate 8 (.owner 0 none true) ++
    [.pump 0 true .again .again, .delete 0, .owner 0 none true, .owner 0 none true,
      .pump 0 true .again .again] ++ List.replicate 5 (.owner 0 none true) ++
    .construct .tx 2 2 :: .owner 1 (some 3) true :: List.replicate 8 (.owner 1 none true)

theorem threads_safe_reused : ∃ s c, Sys.run step init reuse = some s ∧
    s.clients[1]? = some c ∧ c.pump.isSome = true ∧ s.Own 1 c.fd := by
  obtain ⟨s, c, hs, hc, hp⟩ : ∃ s c, Sys.run step init reuse = some s ∧
      s.clients[1]? = some c ∧ c.pump.isSome = true := ⟨_, _, rfl, rfl, rfl⟩
  exact ⟨s, c, hs, hc, hp, ((threads_safe hs).2 1 c hc).pump hp⟩

end ThreadSystem

end Avs4000
