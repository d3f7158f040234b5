import Mathlib

/-!
# A bounded broadcast channel

A channel that keeps the last `capacity` values for its receivers. Each receiver has a position of
its own among the values sent, and one that falls more than `capacity` values behind loses the
oldest of them: its next `recv` only says that it has lagged, and moves it to the oldest value that
is kept.

* `recv_value`: what a receiver gets is the first value it has not got.
* `recv_ne_lagged`: a receiver with at most `capacity` values to get loses none.
-/

namespace BitRev

structure Broadcast (α : Type*) where
  capacity : Nat
  /-- Every value sent so far. -/
  sent : List α := []

namespace Broadcast

variable {α : Type*}

/-- What a receiver gets, and its position after that. -/
inductive Recv (α : Type*) where
  | empty
  | lagged (next : Nat)
  | value (a : α) (next : Nat)

section

variable (b : Broadcast α)

def send (a : α) : Broadcast α := { b with sent := b.sent ++ [a] }

/-- The position of a new receiver. -/
def subscribe : Nat := b.sent.length

def recv (next : Nat) : Recv α :=
  match b.sent[next]? with
  | none => .empty
  | some a =>
    if b.capacity < b.sent.length - next then .lagged (b.sent.length - b.capacity)
    else .value a (next + 1)

/-- The values a receiver has not got. -/
def pending (next : Nat) : List α := b.sent.drop next

end

variable {b : Broadcast α} {a : α} {next next' : Nat}

@[simp] lemma pending_subscribe : b.pending b.subscribe = [] := List.drop_length

lemma pending_send (h : next ≤ b.sent.length) (a : α) :
    (b.send a).pending next = b.pending next ++ [a] :=
  List.drop_append_of_le_length h

lemma recv_value (h : b.recv next = .value a next') :
    b.pending next = a :: b.pending next' ∧ next' ≤ b.sent.length := by
  unfold recv at h
  split at h
  · cases h
  · rename_i a' ha
    obtain ⟨hlt, hget⟩ := List.getElem?_eq_some_iff.1 ha
    split_ifs at h
    cases h
    refine ⟨?_, hlt⟩
    rw [pending, List.drop_eq_getElem_cons hlt, hget]
    rfl

lemma recv_ne_lagged (h : (b.pending next).length ≤ b.capacity) : b.recv next ≠ .lagged next' := by
  rw [pending, List.length_drop] at h
  unfold recv
  split
  · nofun
  · rw [if_neg (not_lt.2 h)]
    nofun

end Broadcast

end BitRev
