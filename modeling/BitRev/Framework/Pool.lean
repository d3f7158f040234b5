import Mathlib

/-!
# Pools of suspended tasks

The tasks that wait for something are a list; the one that goes on is taken out by its position.

* `countP_eraseIdx`: taking out a task takes it out of every count it is in.
* `mem_eraseIdx_or`: what is not taken out is still there.
* `eq_of_countP_le_one`: of what is counted at most once there is at most one.
-/

namespace BitRev.Pool

variable {α : Type*}

lemma countP_eraseIdx (q : α → Bool) {l : List α} {n : Nat} {a : α} (h : l[n]? = some a) :
    (l.eraseIdx n).countP q + (if q a then 1 else 0) = l.countP q := by
  obtain ⟨hn, rfl⟩ := List.getElem?_eq_some_iff.1 h
  rw [← List.Perm.countP_eq q (List.getElem_cons_eraseIdx_perm hn), List.countP_cons]

lemma countP_eraseIdx_le (q : α → Bool) (l : List α) (n : Nat) :
    (l.eraseIdx n).countP q ≤ l.countP q :=
  (List.eraseIdx_sublist l n).countP_le

lemma mem_eraseIdx_or {l : List α} (n : Nat) {a : α} (h : a ∈ l) :
    a ∈ l.eraseIdx n ∨ l[n]? = some a := by
  obtain ⟨i, hi⟩ := List.getElem?_of_mem h
  rcases eq_or_ne i n with rfl | hne
  · exact .inr hi
  · exact .inl (List.mem_eraseIdx_iff_getElem?.2 ⟨i, hne, hi⟩)

lemma eq_of_countP_le_one {q : α → Bool} {l : List α} (h : l.countP q ≤ 1) {a b : α}
    (ha : a ∈ l) (hb : b ∈ l) (hqa : q a = true) (hqb : q b = true) : a = b := by
  rw [List.countP_eq_length_filter] at h
  have hma : a ∈ l.filter q := List.mem_filter.2 ⟨ha, hqa⟩
  have hmb : b ∈ l.filter q := List.mem_filter.2 ⟨hb, hqb⟩
  match hf : l.filter q, h with
  | [], _ => simp [hf] at hma
  | [c], _ =>
    rw [hf, List.mem_singleton] at hma hmb
    rw [hma, hmb]

end BitRev.Pool
