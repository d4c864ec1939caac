import Avs4000.BlockSteps
import Avs4000.Lib.Ownership
import Avs4000.Lib.Run

namespace Avs4000
open Ownership
set_option autoImplicit true

namespace SignalClient

/-- A pump runs on an open socket, and the destructor leaves no socket open. -/
structure Ok (c : SignalClient) : Prop where
  attached : c.attached = true → c.sock = true
  gone : c.alive = false → c.sock = false

/-- Deleted, with the pump stopped and the socket closed. -/
def Gone (c : SignalClient) : Prop := c.alive = false ∧ c.sock = false ∧ c.attached = false

theorem Ok.gone_iff (h : Ok c) : c.Gone ↔ c.alive = false := by
  constructor
  · exact fun hg => hg.1
  · intro ha
    have hs := h.gone ha
    refine ⟨ha, hs, Bool.eq_false_iff.2 fun hat => ?_⟩
    cases hs.symm.trans (h.attached hat)

theorem tcpSignalClient_ok (n : Network) (hostname : String) (port : UInt16) :
    Ok (tcpSignalClient n hostname port) := by
  refine ⟨fun h => ?_, fun h => by cases h⟩
  rw [tcpSignalClient, Bool.and_eq_true] at h
  exact h.1

theorem Ok.destroy (h : Ok c) : Ok c.destroy := by
  rw [SignalClient.destroy]
  split
  · exact ⟨fun h => h, fun _ => rfl⟩
  · next hs => exact ⟨h.attached, fun _ => Bool.eq_false_iff.2 hs⟩

theorem destroy_alive (c : SignalClient) : c.destroy.alive = false := by
  rw [destroy]
  split <;> rfl

end SignalClient

/-- The signal client of a number is there. -/
def Alive (signals : List SignalClient) (i : Nat) : Prop :=
  ∃ c, signals[i]? = some c ∧ c.alive = true

theorem Alive.lt (h : Alive signals i) : i < signals.length := by
  obtain ⟨c, hc, _⟩ := h
  exact (List.getElem?_eq_some_iff.1 hc).1

theorem alive_append (n : Network) (hostname : String) (port : UInt16) :
    Alive (signals ++ [.tcpSignalClient n hostname port]) i ↔
      Alive signals i ∨ i = signals.length := by
  rcases Nat.lt_trichotomy i signals.length with hi | rfl | hi
  · rw [Alive, List.getElem?_append_left hi, Alive, or_iff_left (Nat.ne_of_lt hi)]
  · rw [Alive, List.getElem?_concat_length]
    exact ⟨fun _ => .inr rfl, fun _ => ⟨_, rfl, rfl⟩⟩
  · constructor
    · intro h
      have hl := h.lt
      rw [List.length_append] at hl
      exact absurd hl (Nat.not_lt.2 hi)
    · rintro (h | rfl)
      · exact absurd h.lt (Nat.lt_asymm hi)
      · exact absurd hi (Nat.lt_irrefl _)

@[simp] theorem length_deleteSignal (signals : List SignalClient) (p : Option Nat) :
    (deleteSignal signals p).length = signals.length := by
  cases p with
  | none => rfl
  | some i => exact List.length_modify ..

theorem alive_delete (signals : List SignalClient) (p : Option Nat) :
    Alive (deleteSignal signals p) i ↔ Alive signals i ∧ p ≠ some i := by
  cases p with
  | none => exact ⟨fun h => ⟨h, fun hn => by cases hn⟩, fun h => h.1⟩
  | some j =>
    rw [deleteSignal, Alive, Option.some_inj.ne]
    by_cases hj : j = i
    · subst hj
      rw [List.getElem?_modify_eq]
      constructor
      · rintro ⟨c, hc, ha⟩
        obtain ⟨c', _, rfl⟩ := Option.map_eq_some_iff.1 hc
        cases (SignalClient.destroy_alive c').symm.trans ha
      · exact fun h => absurd rfl h.2
    · rw [List.getElem?_modify_ne _ _ hj]
      exact ⟨fun h => ⟨h, hj⟩, fun h => h.1⟩

theorem ok_delete (h : ∀ c ∈ signals, SignalClient.Ok c) (p : Option Nat) :
    ∀ c ∈ deleteSignal signals p, c.Ok := by
  cases p with
  | none => exact h
  | some j =>
    intro c hc
    rw [deleteSignal] at hc
    obtain ⟨i, hi⟩ := List.mem_iff_getElem?.1 hc
    rw [List.getElem?_modify] at hi
    obtain ⟨c', hc', rfl⟩ := Option.map_eq_some_iff.1 hi
    have hok := h c' (List.mem_of_getElem? hc')
    split
    · exact hok.destroy
    · exact hok

namespace SyncBlock
open AVS4000Client

/-- The client of the block has the signal client. -/
def Held (d : Dir) (s : SyncBlock P) (i : Nat) : Prop :=
  ∃ c, s.client = some c ∧ c.sig d = some i

/-- A client has it whose deletion is pending. The destructor looks at `rxSig` only. -/
def Pending (s : SyncBlock P) (i : Nat) : Prop := ∃ c ∈ s.later, c.rxSig = some i

/-- The signal clients that are alive, and those that `stop` or a pending deletion will delete. -/
def owners (d : Dir) (s : SyncBlock P) : Owners Nat where
  alive := { i | Alive s.signals i }
  kept := { i | Held d s i ∨ Pending s i }

/-- What a client has is alive and has no other owner. -/
structure Owned (d : Dir) (s : SyncBlock P) : Prop where
  ok : ∀ c ∈ s.signals, c.Ok
  other : ∀ c, s.client = some c → c.sig d.other = none
  held : ∀ i, Held d s i → Alive s.signals i ∧ ¬Pending s i
  pending : ∀ i, Pending s i → i < s.signals.length

variable {P : Type} {s t : SyncBlock P}

theorem held_iff (hc : s.client = some c) : Held d s i ↔ c.sig d = some i := by
  constructor
  · rintro ⟨_, hc', hi⟩
    cases hc.symm.trans hc'
    exact hi
  · exact fun hi => ⟨c, hc, hi⟩

theorem SameSignals.held (h : SameSignals s t) : Held d t i ↔ Held d s i := by
  rw [Held, h.client, Held]

theorem SameSignals.pending (h : SameSignals s t) : Pending t i ↔ Pending s i := by
  rw [Pending, h.later, Pending]

theorem SameSignals.owned (hs : Owned d s) (h : SameSignals s t) : Owned d t where
  ok := h.signals ▸ hs.ok
  other c hc := hs.other c (h.client ▸ hc)
  held i hi := by
    rw [h.signals, h.pending]
    exact hs.held i (h.held.1 hi)
  pending i hi := h.signals ▸ hs.pending i (h.pending.1 hi)

theorem SameSignals.moves (h : SameSignals s t) : Moves (s.owners d) (t.owners d) ∅ ∅ ∅ := by
  have howners : t.owners d = s.owners d := by
    simp only [owners, h.held, h.pending, h.signals]
  exact howners ▸ .refl _

theorem Started.pending (h : Started d s t) : Pending t i ↔ Pending s i := by
  rw [Pending, h.later, Pending]

theorem Started.signals (h : Started d s t) :
    (∀ i, ¬Held d t i) ∧ t.signals = s.signals ∨
      (∀ i, Held d t i ↔ i = s.signals.length) ∧
        ∃ n host port, t.signals = s.signals ++ [.tcpSignalClient n host port] := by
  obtain ⟨c, hc, _, hsig⟩ := h.client
  rcases hsig with ⟨hn, hs⟩ | ⟨hn, hs⟩
  · refine .inl ⟨fun i hi => ?_, hs⟩
    cases hn.symm.trans ((held_iff hc).1 hi)
  · refine .inr ⟨fun i => ?_, hs⟩
    rw [held_iff hc, hn, Option.some_inj, eq_comm]

theorem Started.alive (h : Started d s t) :
    Alive t.signals i ↔ Alive s.signals i ∨ Held d t i := by
  rcases h.signals with ⟨hn, hs⟩ | ⟨hn, n, host, port, hs⟩
  · rw [hs, or_iff_left (hn i)]
  · rw [hs, alive_append, hn]

theorem Started.fresh (h : Started d s t) (hi : Held d t i) : i = s.signals.length := by
  rcases h.signals with ⟨hn, _⟩ | ⟨hn, _⟩
  · exact absurd hi (hn i)
  · exact (hn i).1 hi

theorem Started.owned (hs : Owned d s) (h : Started d s t) : Owned d t where
  ok := by
    rcases h.signals with ⟨_, ht⟩ | ⟨_, n, host, port, ht⟩
    · exact ht ▸ hs.ok
    · intro c hc
      rw [ht, List.mem_append, List.mem_singleton] at hc
      rcases hc with hc | rfl
      · exact hs.ok c hc
      · exact SignalClient.tcpSignalClient_ok ..
  other c hc := by
    obtain ⟨c', hc', ho, _⟩ := h.client
    cases hc.symm.trans hc'
    exact ho
  held i hi := by
    refine ⟨h.alive.2 (.inr hi), fun hp => ?_⟩
    have hlt := hs.pending i (h.pending.1 hp)
    rw [h.fresh hi] at hlt
    exact Nat.lt_irrefl _ hlt
  pending i hi := by
    have hlt := hs.pending i (h.pending.1 hi)
    rcases h.signals with ⟨_, ht⟩ | ⟨_, n, host, port, ht⟩
    · exact ht ▸ hlt
    · rw [ht, List.length_append]
      exact Nat.lt_add_right _ hlt

/-- What the client of before has is dropped. -/
theorem Started.moves (hs : Owned d s) (h : Started d s t) :
    Moves (s.owners d) (t.owners d) ∅ { i | Held d s i } { i | Held d t i } where
  alive i := by
    change Alive t.signals i ↔ Alive s.signals i ∧ ¬False ∨ Held d t i
    rw [h.alive, not_false_eq_true, and_true]
  kept i _ := by
    change Held d t i ∨ Pending t i ↔ (Held d s i ∨ Pending s i) ∧ ¬Held d s i ∨ Held d t i
    rw [h.pending]
    have hp : Pending s i → ¬Held d s i := fun hp hh => (hs.held i hh).2 hp
    tauto
  of_released _ := False.elim
  of_dropped i hi := ⟨(hs.held i hi).1, not_false⟩
  of_made i hi ha := by
    have hlt := Alive.lt ha
    rw [h.fresh hi] at hlt
    exact Nat.lt_irrefl _ hlt

theorem Stopped.not_held (h : Stopped d o s t c) (i : Nat) : ¬Held d t i := by
  rintro ⟨c', hc', _⟩
  cases h.client.symm.trans hc'

theorem pending_concat (hl : t.later = s.later ++ [c]) :
    Pending t i ↔ Pending s i ∨ c.rxSig = some i := by
  rw [Pending, hl, Pending]
  constructor
  · rintro ⟨c', hm, hi⟩
    rcases List.mem_append.1 hm with hm | hm
    · exact .inl ⟨c', hm, hi⟩
    · exact .inr (List.mem_singleton.1 hm ▸ hi)
  · rintro (⟨c', hm, hi⟩ | hi)
    · exact ⟨c', List.mem_append_left _ hm, hi⟩
    · exact ⟨c, List.mem_append_right _ (List.mem_singleton_self c), hi⟩

theorem setSig_rxSig {c : AVS4000Client} (ho : c.sig (Dir.other d) = none) :
    (c.setSig none d).rxSig = none := by
  cases d with
  | rx => rfl
  | tx => exact ho

theorem rxSig_iff {c : AVS4000Client} (ho : c.sig (Dir.other d) = none) :
    c.rxSig = some i ↔ c.sig d = some i ∧ d = .rx := by
  cases d with
  | rx => exact (and_iff_left rfl).symm
  | tx =>
    constructor
    · intro h
      cases (ho : c.rxSig = none).symm.trans h
    · intro h
      cases h.2

theorem Stopped.released (hs : Owned d s) (hc : s.client = some c) (h : Stopped d o s t c)
    (hr : (stopData d o s.requests).1.success = true) :
    Owned d t ∧ Moves (s.owners d) (t.owners d) { i | Held d s i } ∅ ∅ := by
  obtain ⟨hl, hsig⟩ := h.stopped hr
  have hpending i : Pending t i ↔ Pending s i := by
    rw [pending_concat hl, setSig_rxSig (hs.other c hc)]
    exact or_iff_left fun he => by cases he
  have halive i : Alive t.signals i ↔ Alive s.signals i ∧ ¬Held d s i := by
    rw [hsig, alive_delete, held_iff hc]
  constructor
  · constructor
    · exact hsig ▸ ok_delete hs.ok _
    · intro c' hc'
      cases h.client.symm.trans hc'
    · exact fun i hi => absurd hi (h.not_held i)
    · intro i hi
      have hlt := hs.pending i ((hpending i).1 hi)
      rw [hsig, length_deleteSignal]
      exact hlt
  · apply Moves.release halive
    · intro i hi
      change Held d t i ∨ Pending t i ↔ Held d s i ∨ Pending s i
      rw [or_iff_right (h.not_held i), hpending, or_iff_right ((halive i).1 hi).2]
    · exact fun i hi => .inl hi

theorem Stopped.kept (hs : Owned d s) (hc : s.client = some c) (h : Stopped d o s t c)
    (hr : (stopData d o s.requests).1.success = false) :
    Owned d t ∧ Moves (s.owners d) (t.owners d) ∅ { i | Held d s i ∧ d = .tx } ∅ := by
  obtain ⟨hl, hsig⟩ := h.failed hr
  have hpending i : Pending t i ↔ Pending s i ∨ Held d s i ∧ d = .rx := by
    rw [pending_concat hl, rxSig_iff (hs.other c hc), held_iff hc]
  constructor
  · constructor
    · exact hsig ▸ hs.ok
    · intro c' hc'
      cases h.client.symm.trans hc'
    · exact fun i hi => absurd hi (h.not_held i)
    · intro i hi
      rw [hsig]
      rcases (hpending i).1 hi with hi | ⟨hi, _⟩
      · exact hs.pending i hi
      · exact (hs.held i hi).1.lt
  · apply Moves.drop
    · intro i
      change Alive t.signals i ↔ Alive s.signals i
      rw [hsig]
    · intro i _
      change Held d t i ∨ Pending t i ↔ (Held d s i ∨ Pending s i) ∧ ¬(Held d s i ∧ d = .tx)
      rw [or_iff_right (h.not_held i), hpending]
      have hp : Pending s i → ¬Held d s i := fun hp hh => (hs.held i hh).2 hp
      have hd : d = .tx ↔ ¬d = .rx := by cases d <;> simp
      tauto
    · exact fun i hi => (hs.held i hi.1).1

/-- What the client has that is deleted next. -/
def next (s : SyncBlock P) : Option Nat := s.later.head?.bind (·.rxSig)

theorem pending_iff :
    Pending s i ↔ s.next = some i ∨ ∃ c ∈ s.later.tail, c.rxSig = some i := by
  rw [Pending, next]
  cases s.later with
  | nil =>
    constructor
    · rintro ⟨c, hm, _⟩
      cases hm
    · rintro (he | ⟨c, hm, _⟩)
      · cases he
      · cases hm
  | cons c cs =>
    rw [List.head?_cons, List.tail_cons, Option.bind_some]
    constructor
    · rintro ⟨c', hm, hi⟩
      rcases List.mem_cons.1 hm with rfl | hm
      · exact .inl hi
      · exact .inr ⟨c', hm, hi⟩
    · rintro (hi | ⟨c', hm, hi⟩)
      · exact ⟨c, List.mem_cons_self .., hi⟩
      · exact ⟨c', List.mem_cons_of_mem _ hm, hi⟩

theorem deleted (hs : Owned d s) (ht : t = { s with
      later := s.later.tail
      signals := s.later.head?.elim s.signals fun c => c.destroy s.signals }) :
    Owned d t ∧ Moves (s.owners d) (t.owners d) { i | s.next = some i } ∅ ∅ := by
  have hheld i : Held d t i ↔ Held d s i := by
    rw [ht]
    rfl
  have hpending i : Pending s i ↔ s.next = some i ∨ Pending t i := by
    rw [pending_iff, ht]
    rfl
  have hsig : t.signals = deleteSignal s.signals s.next := by
    rw [ht, next]
    cases s.later <;> rfl
  have halive i : Alive t.signals i ↔ Alive s.signals i ∧ s.next ≠ some i := by
    rw [hsig, alive_delete]
  constructor
  · constructor
    · exact hsig ▸ ok_delete hs.ok _
    · intro c hc
      have hclient : t.client = s.client := by rw [ht]
      exact hs.other c (hclient.symm.trans hc)
    · intro i hi
      obtain ⟨ha, hp⟩ := hs.held i ((hheld i).1 hi)
      exact ⟨(halive i).2 ⟨ha, fun hn => hp ((hpending i).2 (.inl hn))⟩,
        fun ht => hp ((hpending i).2 (.inr ht))⟩
    · intro i hi
      rw [hsig, length_deleteSignal]
      exact hs.pending i ((hpending i).2 (.inr hi))
  · apply Moves.release halive
    · intro i hi
      change Held d t i ∨ Pending t i ↔ Held d s i ∨ Pending s i
      rw [hheld, hpending, or_iff_right ((halive i).1 hi).2]
    · exact fun i hi => .inr ((hpending i).2 (.inl hi))

end SyncBlock

namespace BlockSystem
open Sys SyncBlock AVS4000Client

/-- `start` comes when no signal client is there, and a transmitter with a signal client is
stopped with the consent of the server. -/
def LeavesNone (d : Dir) (o : Outside) (s : BlockSystem P) : Act W S → Prop
  | .start => ∀ i, ¬Held d s.block i
  | .stop => ∀ i, Held d s.block i → d = .tx → (stopData d o s.block.requests).1.success = true
  | .work _ | .set _ | .deleteLater => True

/-- A step keeps the ownership, and drops a signal client only if it misses the condition. -/
theorem step_moves {s t : BlockSystem P} {a : Act W S} (hs : Owned d s.block)
    (h : Step d o s t a) : Owned d t.block ∧ ∃ released dropped made,
      Moves (s.block.owners d) (t.block.owners d) released dropped made ∧
        (dropped.Nonempty ↔ ¬LeavesNone d o s a) := by
  have hempty : ¬(∅ : Set Nat).Nonempty := Set.not_nonempty_empty
  cases h with
  | start hst =>
    refine ⟨hst.owned hs, _, _, _, hst.moves hs, ?_⟩
    rw [LeavesNone, not_forall]
    exact exists_congr fun i => not_not.symm
  | stop hc hst =>
    cases hr : (stopData d o s.block.requests).1.success with
    | true =>
      obtain ⟨ht, hm⟩ := hst.released hs hc hr
      exact ⟨ht, _, _, _, hm, iff_of_false hempty fun hn => hn fun _ _ _ => hr⟩
    | false =>
      obtain ⟨ht, hm⟩ := hst.kept hs hc hr
      refine ⟨ht, _, _, _, hm, ?_⟩
      rw [LeavesNone, not_forall]
      constructor
      · rintro ⟨i, hi, hd⟩
        refine ⟨i, fun hn => ?_⟩
        cases hr.symm.trans (hn hi hd)
      · rintro ⟨i, hn⟩
        obtain ⟨hi, hn⟩ := Classical.not_imp.1 hn
        exact ⟨i, hi, (Classical.not_imp.1 hn).1⟩
  | stopNull hc ht =>
    have hsame : SameSignals s.block t.block := ht ▸ .refl _
    refine ⟨hsame.owned hs, _, _, _, hsame.moves, iff_of_false hempty fun hn => hn ?_⟩
    rintro i ⟨c, hc', _⟩
    cases hc.symm.trans hc'
  | work hsame | set _ hsame =>
    exact ⟨hsame.owned hs, _, _, _, hsame.moves, iff_of_false hempty fun hn => hn trivial⟩
  | setNull _ ht =>
    have hsame : SameSignals s.block t.block := ht ▸ .refl _
    exact ⟨hsame.owned hs, _, _, _, hsame.moves, iff_of_false hempty fun hn => hn trivial⟩
  | deleteLater ht =>
    obtain ⟨ht, hm⟩ := deleted hs ht
    exact ⟨ht, _, _, _, hm, iff_of_false hempty fun hn => hn trivial⟩

theorem init_owned (params : P) : Owned d (init params).block where
  ok _ hc := False.elim (List.not_mem_nil hc)
  other _ hc := by cases hc
  held := by
    rintro _ ⟨_, hc, _⟩
    cases hc
  pending := by
    rintro _ ⟨_, hc, _⟩
    cases hc

theorem gone_iff {s : SyncBlock P} (hs : Owned d s) (hc : s.client = none) (hl : s.later = []) :
    (∀ c ∈ s.signals, c.Gone) ↔ ¬(s.owners d).Lost := by
  constructor
  · rintro hall ⟨i, ⟨c, hi, ha⟩, _⟩
    have hg := (hall c (List.mem_of_getElem? hi)).1
    cases hg.symm.trans ha
  · intro hn c hm
    refine (hs.ok c hm).gone_iff.2 (Bool.eq_false_iff.2 fun ha => hn ?_)
    obtain ⟨i, hi⟩ := List.mem_iff_getElem?.1 hm
    refine ⟨i, ⟨c, hi, ha⟩, ?_⟩
    rintro (⟨c', hc', _⟩ | ⟨c', hm', _⟩)
    · cases hc.symm.trans hc'
    · rw [hl] at hm'
      exact List.not_mem_nil hm'

theorem none_left_iff {dev : Device P W S} (hd : Device.Of dev d)
    (hr : run (step dev o) (init p) acts = some s) (hc : s.block.client = none)
    (hl : s.block.later = []) :
    (∀ c ∈ s.block.signals, c.Gone) ↔ Along (step dev o) (LeavesNone d o) (init p) acts := by
  have hinv {s a t} (hs : Owned d s.block) (h : step dev o s a = some t) : Owned d t.block :=
    (step_moves hs (step_cases hd h)).1
  have hlost {s a t} (hs : Owned d s.block) (h : step dev o s a = some t) :
      (t.block.owners d).Lost ↔ (s.block.owners d).Lost ∨ ¬LeavesNone d o s a := by
    obtain ⟨_, released, dropped, made, hm, hn⟩ := step_moves hs (step_cases hd h)
    rw [hm.lost_iff, hn]
  have hinit : ¬((init p).block.owners d).Lost := by
    rintro ⟨i, ⟨c, hi, _⟩, _⟩
    cases hi
  have howned := run_invariant (I := fun s => Owned d s.block) (fun _ _ _ => hinv)
    (init_owned p) hr
  rw [gone_iff howned hc hl]
  exact not_iff_along (I := fun s => Owned d s.block) (B := fun s => (s.block.owners d).Lost)
    (fun _ _ _ => hinv) (fun _ _ _ => hlost) (init_owned p) hinit hr

/-- When a stopped block has seen its deletions done, all signal clients of the run are gone exactly
if every `start` found none there and the server agreed to every stop of a transmitter that had
one. -/
theorem stop_leaves_none_iff (o : Outside) :
    (∀ params acts s, run (step avs4000rx o) (init params) acts = some s →
      s.block.client = none → s.block.later = [] →
      ((∀ c ∈ s.block.signals, c.Gone) ↔
        Along (step avs4000rx o) (LeavesNone .rx o) (init params) acts)) ∧
    ∀ params acts s, run (step avs4000tx o) (init params) acts = some s →
      s.block.client = none → s.block.later = [] →
      ((∀ c ∈ s.block.signals, c.Gone) ↔
        Along (step avs4000tx o) (LeavesNone .tx o) (init params) acts) :=
  ⟨fun _ _ _ => none_left_iff rx_of, fun _ _ _ => none_left_iff tx_of⟩

/-- Each block is started and stopped once. -/
theorem stop_leaves_none_iff_once :
    let o : Outside := .answering fun _ => .list [.bool true]
    (∃ s, run (step avs4000rx o) (init .plain) [.start, .stop, .deleteLater] = some s ∧
      ((∀ c ∈ s.block.signals, c.Gone) ↔
        Along (step avs4000rx o) (LeavesNone .rx o) (init .plain) [.start, .stop, .deleteLater])) ∧
      ∃ s, run (step avs4000tx o) (init .plain) [.start, .stop, .deleteLater] = some s ∧
        ((∀ c ∈ s.block.signals, c.Gone) ↔ Along (step avs4000tx o) (LeavesNone .tx o)
          (init .plain) [.start, .stop, .deleteLater]) :=
  ⟨⟨_, rfl, (stop_leaves_none_iff _).1 _ _ _ rfl rfl rfl⟩,
    _, rfl, (stop_leaves_none_iff _).2 _ _ _ rfl rfl rfl⟩

/-- The server fails the stop of a transmitter. -/
theorem refused_stop_leaves_signal : ∃ o s, run (step avs4000tx o) (init .plain)
      [.start, .stop, .deleteLater] = some s ∧ s.block.client = none ∧ s.block.later = [] ∧
      s.block.signals = [⟨true, true, true⟩] :=
  ⟨.answering fun requests => .list (if requests.length = 5 then
    [.bool false, .ofUInt 16, .string "Failure"] else [.bool true]), _, rfl, rfl, rfl, rfl⟩

end BlockSystem
end Avs4000
