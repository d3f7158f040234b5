import Mathlib

/-!
# Looking up in a changed map

What a lookup that succeeds after an `insert` or `erase` says about the map before.

* `lookup_insert_cases`, `lookup_erase_cases`.
* `countP_erase`, `countP_insert`: how many entries have a property.
* `retain`: the entries with a property.
-/

namespace BitRev.Assoc

open AList

variable {α β : Type} [DecidableEq α] {m : AList fun _ : α => β} {a a' : α} {b b' : β}

lemma lookup_insert_cases (h : (m.insert a b).lookup a' = some b') :
    (a' = a ∧ b' = b) ∨ (a' ≠ a ∧ m.lookup a' = some b') := by
  rcases eq_or_ne a' a with rfl | hne
  · rw [lookup_insert] at h
    exact .inl ⟨rfl, (Option.some.inj h).symm⟩
  · rw [lookup_insert_ne hne] at h
    exact .inr ⟨hne, h⟩

lemma lookup_erase_cases (h : (m.erase a).lookup a' = some b') :
    a' ≠ a ∧ m.lookup a' = some b' := by
  rcases eq_or_ne a' a with rfl | hne
  · rw [lookup_erase] at h
    cases h
  · rw [lookup_erase_ne hne] at h
    exact ⟨hne, h⟩

section

variable (q : (Sigma fun _ : α => β) → Bool)
include q

lemma countP_erase (h : m.lookup a = some b) :
    (m.erase a).entries.countP q + (if q ⟨a, b⟩ then 1 else 0) = m.entries.countP q := by
  obtain ⟨b', l₁, l₂, -, hl, he⟩ := List.exists_of_kerase (mem_keys.1
    (lookup_isSome.1 (by rw [h]; rfl) : a ∈ m))
  -- the entry that is cut out is the one looked up
  have hb : b' = b := by
    have hmem : (⟨a, b'⟩ : Sigma fun _ : α => β) ∈ m.entries := by simp [hl]
    exact Option.some.inj ((mem_lookup_iff.2 hmem).symm.trans h)
  have herase : (m.erase a).entries = l₁ ++ l₂ := he
  rw [herase, hl, hb]
  simp only [List.countP_append, List.countP_cons]
  omega

lemma countP_erase_of_not (h : ∀ b ∈ m.lookup a, q ⟨a, b⟩ = false) :
    (m.erase a).entries.countP q = m.entries.countP q := by
  cases hl : m.lookup a with
  | none =>
    have hkeys : a ∉ m.entries.keys := lookup_eq_none.1 hl
    exact congrArg _ (List.kerase_of_notMem_keys hkeys)
  | some b =>
    rw [← countP_erase q hl, h b hl]
    rfl

lemma countP_insert (m : AList fun _ : α => β) (a : α) (b : β) :
    (m.insert a b).entries.countP q =
      (m.erase a).entries.countP q + (if q ⟨a, b⟩ then 1 else 0) := by
  rw [entries_insert, List.countP_cons]
  rfl

end

/-- The entries of the map with a property. -/
def retain (q : α → β → Bool) (m : AList fun _ : α => β) : AList fun _ : α => β :=
  ⟨m.entries.filter fun x => q x.1 x.2, m.nodupKeys.sublist List.filter_sublist⟩

lemma lookup_retain {q : α → β → Bool} :
    (retain q m).lookup a = some b ↔ m.lookup a = some b ∧ q a b = true := by
  rw [← Option.mem_def, ← Option.mem_def, mem_lookup_iff, mem_lookup_iff]
  exact List.mem_filter

end BitRev.Assoc
