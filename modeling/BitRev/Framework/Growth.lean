import Mathlib

/-!
# Two versions of a list

A list before and after: each place of it is related to what was there (`Option.Rel` of the two
lookups), or the list has only grown at its end.
-/

namespace BitRev.Growth

variable {α : Type*} {R : α → α → Prop} {x y z : Option α} {l l₁ l' : List α} {P : α → Prop}

lemma refl (hR : ∀ a, R a a) (x : Option α) : Option.Rel R x x := by
  cases x with
  | none => exact .none
  | some a => exact .some (hR a)

lemma trans (hR : ∀ {a b c}, R a b → R b c → R a c) (h : Option.Rel R x y)
    (h' : Option.Rel R y z) : Option.Rel R x z := by
  cases h with
  | none =>
    cases h'
    exact .none
  | some h =>
    cases h' with
    | some h' => exact .some (hR h h')

lemma of_some {b : α} (h : Option.Rel R x (some b)) : ∃ a, x = some a ∧ R a b := by
  cases h with
  | some h => exact ⟨_, rfl, h⟩

lemma to_some {a : α} (h : Option.Rel R (some a) y) : ∃ b, y = some b ∧ R a b := by
  cases h with
  | some h => exact ⟨_, rfl, h⟩

lemma modify (hR : ∀ a, R a a) (l : List α) {f : α → α} {i j : Nat} (hf : i = j → ∀ a, R a (f a)) :
    Option.Rel R l[j]? (l.modify i f)[j]? := by
  rw [List.getElem?_modify]
  cases l[j]? with
  | none => exact .none
  | some a =>
    refine .some ?_
    split
    · rename_i hij
      exact hf hij a
    · exact hR a

lemma map (l : List α) {f : α → α} (hf : ∀ a, R a (f a)) (j : Nat) :
    Option.Rel R l[j]? (l.map f)[j]? := by
  rw [List.getElem?_map]
  cases l[j]? with
  | none => exact .none
  | some a => exact .some (hf a)

lemma append (h : ∃ new, l₁ = l ++ new ∧ ∀ a ∈ new, P a)
    (h' : ∃ new, l' = l₁ ++ new ∧ ∀ a ∈ new, P a) : ∃ new, l' = l ++ new ∧ ∀ a ∈ new, P a := by
  obtain ⟨new, rfl, hnew⟩ := h
  obtain ⟨new', rfl, hnew'⟩ := h'
  refine ⟨new ++ new', List.append_assoc .., fun a ha => ?_⟩
  exact (List.mem_append.1 ha).elim (hnew a) (hnew' a)

end BitRev.Growth
