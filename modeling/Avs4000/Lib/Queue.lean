import Mathlib.Data.List.Basic
import Mathlib.Logic.Relation

set_option autoImplicit true

/-- A queue as a history: what was written to it, how much of that is published to the reader
and how much of it the reader has taken. -/
structure Queue (β : Type) where
  written : List β
  published : Nat
  taken : Nat
  taken_le : taken ≤ published
  published_le : published ≤ written.length

namespace Queue

def empty (β : Type) : Queue β := ⟨[], 0, 0, Nat.le_refl _, Nat.le_refl _⟩

/-- What the reader can take. -/
def front (q : Queue β) : List β := (q.written.take q.published).drop q.taken

/-- What is written but not yet published. -/
def pending (q : Queue β) : List β := q.written.drop q.published

def push (q : Queue β) (bs : List β) : Queue β where
  written := q.written ++ bs
  published := q.published
  taken := q.taken
  taken_le := q.taken_le
  published_le := by
    have h := q.published_le
    rw [List.length_append]
    omega

def publish (q : Queue β) : Queue β where
  written := q.written
  published := q.written.length
  taken := q.taken
  taken_le := Nat.le_trans q.taken_le q.published_le
  published_le := Nat.le_refl _

def take (q : Queue β) (n : Nat) (h : n ≤ q.front.length) : Queue β where
  written := q.written
  published := q.published
  taken := q.taken + n
  taken_le := by
    have h₁ := q.taken_le
    have h₂ := q.published_le
    simp only [front, List.length_drop, List.length_take] at h
    omega
  published_le := q.published_le

inductive Step : Queue β → Queue β → Prop
  | push (q : Queue β) (bs : List β) : Step q (q.push bs)
  | publish (q : Queue β) : Step q q.publish
  | take (q : Queue β) (n : Nat) (h : n ≤ q.front.length) : Step q (q.take n h)

abbrev Steps : Queue β → Queue β → Prop := Relation.ReflTransGen Step

theorem taken_append (q : Queue β) :
    q.written.take q.taken ++ q.front ++ q.pending = q.written := by
  have h : q.written.take q.taken = (q.written.take q.published).take q.taken := by
    rw [List.take_take, Nat.min_eq_left q.taken_le]
  rw [front, pending, h, List.take_append_drop, List.take_append_drop]

@[simp] theorem front_push (q : Queue β) (bs : List β) : (q.push bs).front = q.front := by
  simp only [front, push, List.take_append_of_le_length q.published_le]

@[simp] theorem pending_push (q : Queue β) (bs : List β) :
    (q.push bs).pending = q.pending ++ bs := by
  simp only [pending, push, List.drop_append_of_le_length q.published_le]

@[simp] theorem front_publish (q : Queue β) : q.publish.front = q.front ++ q.pending := by
  have h : q.taken ≤ (q.written.take q.published).length := by
    have h₁ := q.taken_le
    have h₂ := q.published_le
    rw [List.length_take]
    omega
  simp only [front, publish, pending, List.take_length]
  rw [← List.drop_append_of_le_length h, List.take_append_drop]

@[simp] theorem pending_publish (q : Queue β) : q.publish.pending = [] := List.drop_length ..

@[simp] theorem front_take (q : Queue β) (h : n ≤ q.front.length) :
    (q.take n h).front = q.front.drop n := by
  simp only [front, take, List.drop_drop]

@[simp] theorem pending_take (q : Queue β) (h : n ≤ q.front.length) :
    (q.take n h).pending = q.pending := rfl

theorem written_take (q : Queue β) (h : n ≤ q.front.length) :
    q.written.take (q.taken + n) = q.written.take q.taken ++ q.front.take n := by
  have h₁ := q.taken_le
  simp only [front, List.length_drop, List.length_take] at h
  rw [List.take_add, front, List.drop_take, List.take_take, Nat.min_eq_left (by omega)]

end Queue
