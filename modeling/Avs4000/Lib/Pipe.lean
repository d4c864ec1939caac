import Avs4000.Lib.Run
import Mathlib.Data.List.Basic

set_option autoImplicit true

/-- A sender and a receiver that gets, in order and at any later time, what the sender puts out. -/
structure Pipe (σ τ : Type) where
  sender : σ
  receiver : τ

namespace Pipe

/-- A step of either party. -/
inductive Act (α β : Type)
  | sender (a : α)
  | receiver (b : β)

section
variable (snd : σ → α → Option σ) (rcv : τ → β → Option τ)
variable (out : σ → List γ) (feed : List γ → τ → τ)

/-- What the sender adds to its output goes into the channel to the receiver. -/
def step (p : Pipe σ τ) : Act α β → Option (Pipe σ τ)
  | .sender a =>
    (snd p.sender a).map fun s => ⟨s, feed ((out s).drop (out p.sender).length) p.receiver⟩
  | .receiver b => (rcv p.receiver b).map fun r => ⟨p.sender, r⟩

end

section
variable {snd : σ → α → Option σ} {rcv : τ → β → Option τ}
variable {out : σ → List γ} {feed : List γ → τ → τ}

/-- What the steps do, one case for each party. -/
inductive Step (snd : σ → α → Option σ) (rcv : τ → β → Option τ) (out : σ → List γ)
    (feed : List γ → τ → τ) (p : Pipe σ τ) : Act α β → Pipe σ τ → Prop
  | sender (h : snd p.sender a = some s) : Step snd rcv out feed p (.sender a)
      ⟨s, feed ((out s).drop (out p.sender).length) p.receiver⟩
  | receiver (h : rcv p.receiver b = some r) :
    Step snd rcv out feed p (.receiver b) ⟨p.sender, r⟩

theorem step_cases (h : step snd rcv out feed p a = some q) : Step snd rcv out feed p a q := by
  cases a with
  | sender a =>
    obtain ⟨s, hs, rfl⟩ := Option.map_eq_some_iff.1 h
    exact .sender hs
  | receiver b =>
    obtain ⟨r, hr, rfl⟩ := Option.map_eq_some_iff.1 h
    exact .receiver hr

theorem run_sender {acts : List (Act α β)}
    (hr : Sys.run (step snd rcv out feed) p acts = some q) :
    ∃ as, (∀ a ∈ as, .sender a ∈ acts) ∧ Sys.run snd p.sender as = some q.sender := by
  induction acts generalizing p with
  | nil =>
    cases hr
    exact ⟨[], fun _ h => absurd h List.not_mem_nil, rfl⟩
  | cons a acts ih =>
    obtain ⟨u, hu, hr⟩ := Sys.run_cons_eq_some.1 hr
    obtain ⟨as, has, hrun⟩ := ih hr
    cases step_cases hu with
    | @sender a s hs =>
      refine ⟨a :: as, fun b hb => ?_, Sys.run_cons_eq_some.2 ⟨s, hs, hrun⟩⟩
      rcases List.mem_cons.1 hb with rfl | hb
      · exact List.mem_cons_self ..
      · exact List.mem_cons_of_mem _ (has b hb)
    | receiver hs => exact ⟨as, fun b hb => List.mem_cons_of_mem _ (has b hb), hrun⟩

theorem run_map_sender {J : σ → Prop}
    (hsnd : ∀ s a t, J s → snd s a = some t → J t ∧ out s <+: out t)
    (hnil : ∀ r, feed [] r = r) (hfeed : ∀ w v r, feed v (feed w r) = feed (w ++ v) r)
    (hJ : J s) (hr : Sys.run snd s as = some t) (r : τ) :
    out s <+: out t ∧ Sys.run (step snd rcv out feed) ⟨s, r⟩ (as.map .sender) =
      some ⟨t, feed ((out t).drop (out s).length) r⟩ := by
  induction as generalizing s r with
  | nil =>
    cases hr
    rw [List.drop_length, hnil]
    exact ⟨List.prefix_rfl, rfl⟩
  | cons a as ih =>
    obtain ⟨u, hu, hr⟩ := Sys.run_cons_eq_some.1 hr
    obtain ⟨hj, w, hw⟩ := hsnd s a u hJ hu
    obtain ⟨⟨v, hv⟩, hrun⟩ := ih hj hr (feed w r)
    have hall : out s ++ (w ++ v) = out t := by rw [← hv, ← hw, List.append_assoc]
    refine ⟨⟨w ++ v, hall⟩, Sys.run_cons_eq_some.2 ⟨⟨u, feed w r⟩, ?_, ?_⟩⟩
    · rw [step, hu, Option.map_some, ← hw, List.drop_left]
    · rw [hrun, ← hv, List.drop_left, hfeed, hv, ← hall, List.drop_left]

theorem run_map_receiver (hr : Sys.run rcv r bs = some r') (s : σ) :
    Sys.run (step snd rcv out feed) ⟨s, r⟩ (bs.map .receiver) = some ⟨s, r'⟩ := by
  induction bs generalizing r with
  | nil =>
    cases hr
    rfl
  | cons b bs ih =>
    obtain ⟨u, hu, hr⟩ := Sys.run_cons_eq_some.1 hr
    refine Sys.run_cons_eq_some.2 ⟨⟨s, u⟩, ?_, ih hr⟩
    rw [step, hu, Option.map_some]

/-- Whatever the sender has yet to put out, the receiver meets the condition for the whole of it. -/
def Fed (out : σ → List γ) (I : List γ → List γ → τ → Prop) (p : Pipe σ τ) : Prop :=
  ∀ rest, I (out p.sender ++ rest) rest p.receiver

/-- A condition on the receiver alone, of all it will get and of what has yet to be sent, holds in
every run if sending keeps it and the steps of the receiver do. -/
theorem run_fed {I : List γ → List γ → τ → Prop} {J : σ → Prop} {G : Pipe σ τ → Act α β → Prop}
    (hsnd : ∀ p a s, J p.sender → G p (.sender a) → snd p.sender a = some s →
      J s ∧ out p.sender <+: out s)
    (hfeed : ∀ full w rest r, I full (w ++ rest) r → I full rest (feed w r))
    (hrcv : ∀ p b r full rest, I full rest p.receiver → G p (.receiver b) →
      rcv p.receiver b = some r → I full rest r)
    (hJ : J p.sender) (h : Fed out I p) (hG : Sys.Along (step snd rcv out feed) G p acts)
    (hr : Sys.run (step snd rcv out feed) p acts = some q) : J q.sender ∧ Fed out I q := by
  refine Sys.run_induction (I := fun p => J p.sender ∧ Fed out I p) ?_ ⟨hJ, h⟩ hG hr
  intro u x v ⟨hj, hu⟩ hx hv
  cases step_cases hv with
  | sender hs =>
    obtain ⟨hj', w, hw⟩ := hsnd u _ _ hj hx hs
    refine ⟨hj', fun rest => ?_⟩
    have hfull := hu (w ++ rest)
    rw [← List.append_assoc, hw] at hfull
    rw [← hw, List.drop_left, hw]
    exact hfeed _ _ _ _ hfull
  | receiver hs => exact ⟨hj, fun rest => hrcv u _ _ _ _ (hu rest) hx hs⟩

end
end Pipe
