import Avs4000.Lib.Rank
import Avs4000.PumpLifecycle
import Avs4000.SignalOwnership

namespace Avs4000
set_option autoImplicit true

/-- The steps a pump takes at most once `done` is set. -/
def PumpPc.rank : PumpPc → Nat
  | loop => 1
  | start | inner => 2
  | select | moved _ => 3
  | holding _ => 4
  | begin => 5

/-- A pump that has ended takes none. -/
def pumpRank (pump : Option PumpPc) : Nat := pump.elim 0 PumpPc.rank

theorem pumpRank_le (pump : Option PumpPc) : pumpRank pump ≤ 5 := by
  cases pump with
  | none => exact Nat.zero_le 5
  | some pc =>
    change pc.rank ≤ 5
    cases pc <;> simp only [PumpPc.rank] <;> decide

theorem SocketRxBuffer.pump_rank {b : SocketRxBuffer} (h : b.done = true) (pc : PumpPc) :
    pumpRank (b.pump fd ready res pc).2 < pc.rank := by
  cases pc with
  | start =>
    cases fd with
    | none => exact (by decide : 0 < 2)
    | some fd => exact (by decide : 1 < 2)
  | loop =>
    rw [pump, h]
    exact (by decide : 0 < 1)
  | select =>
    cases ready with
    | true => exact (by decide : 2 < 3)
    | false => exact (by decide : 1 < 3)
  | inner =>
    rw [pump, h]
    exact (by decide : 1 < 2)
  | begin =>
    rw [pump]
    split
    · exact (by decide : 1 < 5)
    · split
      · exact (by decide : 4 < 5)
      · exact (by decide : 1 < 5)
  | holding r =>
    cases res with
    | data n =>
      cases n with
      | zero => exact (by decide : 1 < 4)
      | succ n => exact (by decide : 3 < 4)
    | again => exact (by decide : 1 < 4)
    | error => exact (by decide : 1 < 4)
  | moved rval => exact (by decide : 2 < 3)

theorem SocketTxBuffer.pump_rank {b : SocketTxBuffer} (h : b.done = true) (pc : PumpPc) :
    pumpRank (b.pump fd ready res pc).2 < pc.rank := by
  cases pc with
  | start =>
    cases fd with
    | none => exact (by decide : 0 < 2)
    | some fd => exact (by decide : 1 < 2)
  | loop =>
    rw [pump, h]
    exact (by decide : 0 < 1)
  | select =>
    cases ready with
    | true => exact (by decide : 2 < 3)
    | false => exact (by decide : 1 < 3)
  | inner =>
    rw [pump, h]
    exact (by decide : 1 < 2)
  | begin =>
    rw [pump]
    split
    · exact (by decide : 1 < 5)
    · split
      · exact (by decide : 4 < 5)
      · exact (by decide : 2 < 5)
  | holding r =>
    cases res with
    | accepted n =>
      cases n with
      | zero => exact (by decide : 1 < 4)
      | succ n => exact (by decide : 3 < 4)
    | again => exact (by decide : 2 < 4)
    | error => exact (by decide : 1 < 4)
  | moved rval => exact (by decide : 1 < 3)

theorem SocketBuffer.pump_rank {b : SocketBuffer} (h : b.done = true) (pc : PumpPc) :
    pumpRank (b.pump fd ready recv send pc).2 < pc.rank := by
  cases b with
  | rx b => exact SocketRxBuffer.pump_rank (b := b) h pc
  | tx b => exact SocketTxBuffer.pump_rank (b := b) h pc

namespace ThreadSystem
variable {s t u : ThreadSystem}

/-- A step of the pump of client `i`. -/
def Act.pumps (i : Nat) : Act → Bool
  | .pump j .. => j == i
  | _ => false

/-- A step of the constructor or destructor of client `i`. -/
def Act.owns (i : Nat) : Act → Bool
  | .owner j .. => j == i
  | _ => false

/-- In its destructor, past the assignment to `done`. -/
structure Leaving (c : TcpSignalClient) : Prop where
  alive : c.alive = false
  done : c.buffer.done = true

/-- A step on the way out of the destructor. -/
structure Leaves (i : Nat) (a : Act) (c c' : TcpSignalClient) : Prop where
  leaving : Leaving c'
  pump : pumpRank c'.pump + (if a.pumps i then 1 else 0) ≤ pumpRank c.pump
  owner : c'.prog.length + (if a.owns i then 1 else 0) ≤ c.prog.length

theorem Leaves.refl (h : Leaving c) (hp : a.pumps i = false) (ho : a.owns i = false) :
    Leaves i a c c := by
  refine ⟨h, ?_, ?_⟩
  · rw [hp]
    exact Nat.le_refl _
  · rw [ho]
    exact Nat.le_refl _

theorem set_ne {s : ThreadSystem} (hj : j ≠ i) :
    (s.set j c).clients[i]? = s.clients[i]? :=
  List.getElem?_set_ne hj

theorem set_eq {s : ThreadSystem} (hc : s.clients[i]? = some c) :
    (s.set i c').clients[i]? = some c' :=
  List.getElem?_set_self (List.getElem?_eq_some_iff.1 hc).1

theorem beq_false {i j : Nat} (hj : j ≠ i) : (j == i) = false := beq_eq_false_iff_ne.2 hj

theorem Leaving.exec (h : Leaving c) (hspawn : st ≠ .spawn) (hdone : st ≠ .setDone false) :
    Leaving { c.exec st with prog := p } ∧ (c.exec st).pump = c.pump := by
  cases st with
  | setDone v =>
    cases v with
    | true => exact ⟨⟨h.alive, SocketBuffer.setDone_done ..⟩, rfl⟩
    | false => exact absurd rfl hdone
  | spawn => exact absurd rfl hspawn
  | reset => exact ⟨⟨h.alive, (SocketBuffer.reset_done _).trans h.done⟩, rfl⟩
  | _ => exact ⟨⟨h.alive, h.done⟩, rfl⟩

theorem owner_leaves (h : Inv s) (hc : s.clients[i]? = some c) (hl : Leaving c)
    (hs : s.ownerStep i fd connected c = some u) :
    ∃ c', u.clients[i]? = some c' ∧ Leaves i (.owner i fd connected) c c' := by
  obtain ⟨⟨k, hfits, hchecks⟩, hleave⟩ := h.ok i c hc
  replace hleave := hleave hl.alive
  have hown : (Act.owner i fd connected).owns i = true := beq_self_eq_true i
  rw [ownerStep] at hs
  cases hprog : c.prog with
  | done =>
    rw [hprog] at hs
    cases hs
  | stmt st p =>
    rw [hprog] at hleave hchecks
    simp only [hprog] at hs
    obtain ⟨_, hspawn, hdone⟩ := Prog.leaving_stmt hleave
    obtain ⟨k', hk⟩ := check_of_checks hchecks
    split at hs
    · cases hs
    · next hblocked =>
      rw [if_neg (hfits.exec hk hblocked).1] at hs
      cases hs
      obtain ⟨hnext, hpump⟩ := hl.exec hspawn hdone (p := p)
      refine ⟨_, set_eq hc, hnext, ?_, ?_⟩
      · exact Nat.le_of_eq (congrArg pumpRank hpump)
      · rw [hown, hprog]
        exact Nat.le_refl _
  | ifSocket p q =>
    rw [hprog] at hleave
    cases hleave
  | ifConnect p q =>
    rw [hprog] at hleave
    cases hleave
  | ifSock p q =>
    simp only [hprog] at hs
    cases hs
    refine ⟨_, set_eq hc, ⟨hl.alive, hl.done⟩, Nat.le_refl _, ?_⟩
    rw [hown, hprog, Prog.length]
    dsimp only
    split
    · exact Nat.succ_le_succ (Nat.le_max_left ..)
    · exact Nat.succ_le_succ (Nat.le_max_right ..)

/-- Whoever takes the step, it leads the client out of its destructor. -/
theorem step_leaves (h : Inv s) (hc : s.clients[i]? = some c) (hl : Leaving c)
    (hs : s.step a = some u) : ∃ c', u.clients[i]? = some c' ∧ Leaves i a c c' := by
  unfold step at hs
  rw [if_neg (Bool.eq_false_iff.1 h.running)] at hs
  cases a with
  | construct d blkSize blkCount =>
    cases hs
    refine ⟨c, ?_, .refl hl rfl rfl⟩
    rw [List.getElem?_append_left (List.getElem?_eq_some_iff.1 hc).1]
    exact hc
  | delete j =>
    obtain ⟨d, hd, hs⟩ := Option.bind_eq_some_iff.1 hs
    split at hs
    · next halive _ =>
      cases hs
      have hj : j ≠ i := by
        rintro rfl
        cases hc.symm.trans hd
        cases hl.alive.symm.trans halive
      exact ⟨c, (set_ne hj).trans hc, .refl hl rfl rfl⟩
    · cases hs
  | owner j fd connected =>
    obtain ⟨d, hd, hs⟩ := Option.bind_eq_some_iff.1 hs
    by_cases hj : j = i
    · subst hj
      cases hc.symm.trans hd
      exact owner_leaves h hc hl hs
    · refine ⟨c, ?_, .refl hl rfl (beq_false hj)⟩
      rw [ownerStep] at hs
      cases hprog : d.prog with
      | done =>
        rw [hprog] at hs
        cases hs
      | stmt st p =>
        simp only [hprog] at hs
        split at hs
        · cases hs
        · split at hs
          · cases hs
            exact hc
          · cases hs
            exact (set_ne hj).trans hc
      | ifSocket p q =>
        simp only [hprog] at hs
        cases fd with
        | none =>
          cases hs
          exact (set_ne hj).trans hc
        | some own =>
          dsimp only at hs
          split at hs
          · cases hs
            exact (set_ne hj).trans hc
          · cases hs
      | ifConnect p q =>
        simp only [hprog] at hs
        cases hs
        exact (set_ne hj).trans hc
      | ifSock p q =>
        simp only [hprog] at hs
        cases hs
        exact (set_ne hj).trans hc
  | pump j ready recv send =>
    obtain ⟨d, hd, hs⟩ := Option.bind_eq_some_iff.1 hs
    obtain ⟨pc, hp, hs⟩ := Option.bind_eq_some_iff.1 hs
    cases hs
    by_cases hj : j = i
    · subst hj
      cases hc.symm.trans hd
      refine ⟨_, set_eq hc, ⟨hl.alive, SocketBuffer.pump_done hl.done pc⟩, ?_, Nat.le_refl _⟩
      have hown : (Act.pump j ready recv send).pumps j = true := beq_self_eq_true j
      rw [hown, hp]
      exact SocketBuffer.pump_rank hl.done pc
    · exact ⟨c, (set_ne hj).trans hc, .refl hl (beq_false hj) rfl⟩
  | call j fifo transferred counter =>
    obtain ⟨d, hd, hs⟩ := Option.bind_eq_some_iff.1 hs
    split at hs
    · next halive _ =>
      cases hs
      have hj : j ≠ i := by
        rintro rfl
        cases hc.symm.trans hd
        cases hl.alive.symm.trans halive
      exact ⟨c, (set_ne hj).trans hc, .refl hl rfl rfl⟩
    · cases hs
  | openOther own =>
    dsimp only at hs
    split at hs
    · cases hs
      exact ⟨c, hc, .refl hl rfl rfl⟩
    · cases hs
  | closeOther own =>
    dsimp only at hs
    split at hs
    · cases hs
      exact ⟨c, hc, .refl hl rfl rfl⟩
    · cases hs

theorem step_owner (h : Inv s) (hc : s.clients[i]? = some c) :
    s.step (.owner i fd connected) = s.ownerStep i fd connected c := by
  unfold step
  rw [if_neg (Bool.eq_false_iff.1 h.running)]
  dsimp only
  rw [hc]
  rfl

theorem step_pump (h : Inv s) (hc : s.clients[i]? = some c) (hp : c.pump = some pc)
    (ready : Bool) (recv : RecvResult) (send : SendResult) :
    ∃ u, s.step (.pump i ready recv send) = some u := by
  unfold step
  rw [if_neg (Bool.eq_false_iff.1 h.running)]
  dsimp only
  rw [hc]
  simp only [Option.bind_eq_bind, Option.bind_some, hp]
  exact ⟨_, rfl⟩

/-- A constructor or destructor can go on, unless it waits for a pump that has been told to go. -/
theorem Inv.progress (h : Inv s) (hc : s.clients[i]? = some c) (hn : c.prog ≠ .done) :
    (∃ fd connected u, s.step (.owner i fd connected) = some u) ∨
      c.buffer.done = true ∧ ∃ pc, c.pump = some pc := by
  obtain ⟨⟨k, hfits, hchecks⟩, _⟩ := h.ok i c hc
  cases hprog : c.prog with
  | done => exact absurd hprog hn
  | stmt st p =>
    by_cases hblocked : c.Blocked st
    · cases st with
      | join =>
        obtain ⟨hjoinable, hpump⟩ := hblocked
        refine .inr ⟨?_, Option.isSome_iff_exists.1 hpump⟩
        rw [hprog] at hchecks
        obtain ⟨k', hk⟩ := check_of_checks hchecks
        rw [Known.check] at hk
        split at hk
        · cases hk
        · next hstop =>
          refine hfits.done true (Classical.not_not.1 fun hd => hstop ⟨hfits.thread hjoinable, hd⟩)
      | _ => exact hblocked.elim
    · refine .inl ⟨none, true, ?_⟩
      rw [step_owner h hc, ownerStep]
      simp only [hprog, if_neg hblocked]
      split
      · exact ⟨_, rfl⟩
      · exact ⟨_, rfl⟩
  | ifSocket p q =>
    refine .inl ⟨none, true, ?_⟩
    rw [step_owner h hc, ownerStep]
    simp only [hprog]
    exact ⟨_, rfl⟩
  | ifConnect p q =>
    refine .inl ⟨none, true, ?_⟩
    rw [step_owner h hc, ownerStep]
    simp only [hprog]
    exact ⟨_, rfl⟩
  | ifSock p q =>
    refine .inl ⟨none, true, ?_⟩
    rw [step_owner h hc, ownerStep]
    simp only [hprog]
    exact ⟨_, rfl⟩

/-- The pump of a client, and what is left of its destructor. -/
def ranks (s : ThreadSystem) (i : Nat) : Nat × Nat :=
  s.clients[i]?.elim (0, 0) fun c => (pumpRank c.pump, c.prog.length)

/-- What stays so until a client is out of its destructor, and after that. -/
structure Left (s : ThreadSystem) (i : Nat) : Prop where
  inv : Inv s
  client : ∃ c, s.clients[i]? = some c ∧ Leaving c

theorem Left.step (h : Left s i) (hs : s.step a = some u) :
    Left u i ∧ (u.ranks i).1 + (if a.pumps i then 1 else 0) ≤ (s.ranks i).1 ∧
      (u.ranks i).2 + (if a.owns i then 1 else 0) ≤ (s.ranks i).2 := by
  obtain ⟨c, hc, hl⟩ := h.client
  obtain ⟨c', hc', hleaves⟩ := step_leaves h.inv hc hl hs
  refine ⟨⟨step_inv h.inv hs, c', hc', hleaves.leaving⟩, ?_⟩
  rw [ranks, ranks, hc, hc']
  exact ⟨hleaves.pump, hleaves.owner⟩

/-- Once a destructor has set `done`, its pump takes at most five more steps, whatever the socket
and the others do, and each statement of the destructor is taken once. Until it returns there is
always a step for one of the two. -/
theorem destructor_returns (hr : Sys.run step init as = some s) (hc : s.clients[i]? = some c)
    (ha : c.alive = false) (hd : c.buffer.done = true) (hr' : Sys.run step s bs = some t) :
    bs.countP (Act.pumps i) ≤ 5 ∧ bs.countP (Act.owns i) ≤ c.prog.length ∧
      ∃ c', t.clients[i]? = some c' ∧ (c'.prog = .done ∨
        ∃ a u, (a.pumps i || a.owns i) = true ∧ t.step a = some u) := by
  have hleft : Left s i := ⟨run_inv hr, c, hc, ha, hd⟩
  have hall : ∀ b ∈ bs, True := fun _ _ => trivial
  have hpumps : ∀ s a u, Left s i → True → step s a = some u →
      Left u i ∧ (u.ranks i).1 + (if a.pumps i then 1 else 0) ≤ (s.ranks i).1 :=
    fun s a u h _ hs => ⟨(h.step hs).1, (h.step hs).2.1⟩
  have howns : ∀ s a u, Left s i → True → step s a = some u →
      Left u i ∧ (u.ranks i).2 + (if a.owns i then 1 else 0) ≤ (s.ranks i).2 :=
    fun s a u h _ hs => ⟨(h.step hs).1, (h.step hs).2.2⟩
  obtain ⟨hend, hpump⟩ := Sys.run_rank hpumps hleft hall hr'
  obtain ⟨_, howner⟩ := Sys.run_rank howns hleft hall hr'
  have hranks : s.ranks i = (pumpRank c.pump, c.prog.length) := by
    rw [ranks, hc]
    rfl
  rw [hranks] at hpump howner
  refine ⟨?_, ?_, ?_⟩
  · calc bs.countP (Act.pumps i)
        ≤ (t.ranks i).1 + bs.countP (Act.pumps i) := Nat.le_add_left ..
      _ ≤ pumpRank c.pump := hpump
      _ ≤ 5 := pumpRank_le _
  · exact Nat.le_trans (Nat.le_add_left ..) howner
  · obtain ⟨c', hc', _⟩ := hend.client
    refine ⟨c', hc', ?_⟩
    by_cases hn : c'.prog = .done
    · exact .inl hn
    · right
      rcases hend.inv.progress hc' hn with ⟨fd, connected, u, hs⟩ | ⟨_, pc, hp⟩
      · exact ⟨.owner i fd connected, u, Bool.or_eq_true_iff.2 (.inr (beq_self_eq_true i)), hs⟩
      · obtain ⟨u, hs⟩ := step_pump hend.inv hc' hp true .again .again
        exact ⟨.pump i true .again .again, u,
          Bool.or_eq_true_iff.2 (.inl (beq_self_eq_true i)), hs⟩

/-- The pump is in `select` when `done` is set. -/
theorem destructor_returns_select : ∃ s c t, Sys.run step init
      (.construct .tx 2 2 :: .owner 0 (some 3) true :: List.replicate 8 (.owner 0 none true) ++
        [.pump 0 true .again .again, .pump 0 true .again .again, .delete 0, .owner 0 none true,
          .owner 0 none true]) = some s ∧
    s.clients[0]? = some c ∧
    Sys.run step s (List.replicate 3 (.pump 0 true .again .again)) = some t ∧
    ∃ c', t.clients[0]? = some c' ∧ (c'.prog = .done ∨
      ∃ a u, (a.pumps 0 || a.owns 0) = true ∧ t.step a = some u) := by
  obtain ⟨s, c, t, hs, hc, ha, hd, ht⟩ : ∃ s c t, Sys.run step init
        (.construct .tx 2 2 :: .owner 0 (some 3) true :: List.replicate 8 (.owner 0 none true) ++
          [.pump 0 true .again .again, .pump 0 true .again .again, .delete 0, .owner 0 none true,
            .owner 0 none true]) = some s ∧
      s.clients[0]? = some c ∧ c.alive = false ∧ c.buffer.done = true ∧
      Sys.run step s (List.replicate 3 (.pump 0 true .again .again)) = some t :=
    ⟨_, _, _, rfl, rfl, rfl, rfl, rfl⟩
  exact ⟨s, c, t, hs, hc, ht, (destructor_returns hs hc ha hd ht).2.2⟩

/-- What the blocks see of a client, for which a constructor or destructor is one step. -/
def signalClient (c : TcpSignalClient) : SignalClient := ⟨c.alive, c.sock.isSome, c.joinable⟩

/-- A client that is constructed is what the constructor gives with some network, and one that has
been destroyed is gone. -/
theorem refines_signalClient {i : Nat} (hr : Sys.run step init as = some s)
    (hc : s.clients[i]? = some c)
    (hd : c.prog = .done) (hostname : String) (port : UInt16) :
    (c.alive = true → ∃ n, signalClient c = .tcpSignalClient n hostname port) ∧
      (c.alive = false → (signalClient c).Gone) := by
  have h := run_inv hr
  constructor
  · intro ha
    obtain ⟨⟨k, hfits, hchecks⟩, _⟩ := h.ok i c hc
    rw [hd, ha, Known.checks, Known.post, if_pos rfl, Bool.and_eq_true] at hchecks
    have hattached : (c.sock.isSome && c.joinable) = c.joinable := by
      cases hj : c.joinable with
      | false => exact Bool.and_false _
      | true =>
        have hopened : k.opened = true := by
          have hk := hchecks.2
          rw [hfits.thread hj] at hk
          exact hk
        rw [hfits.sock, hfits.opened hopened]
        rfl
    refine ⟨⟨c.sock.isSome, fun _ => none, fun _ _ => c.joinable⟩, ?_⟩
    rw [signalClient, SignalClient.tcpSignalClient, hattached, ha]
  · intro ha
    obtain ⟨_, hjoinable, hsock, _⟩ := (h.safe hc).gone ha hd
    rw [signalClient, ha, hjoinable, hsock]
    exact ⟨rfl, rfl, rfl⟩

end ThreadSystem
end Avs4000
