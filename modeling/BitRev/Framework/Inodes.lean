import BitRev.Framework.Bytes
import BitRev.Framework.Segments

/-!
# Names and inodes

A directory as a POSIX file system has it: names refer to inodes, and inodes have contents. A file
that is open is an inode, which keeps its contents under whatever name it gets, or under none.
`Inodes ν` has names in `ν`; a name refers to an inode that exists, and no two names to one.

* `create`, `write`, `rename`, `remove`: `open` with `O_CREAT | O_TRUNC`, one `write` call at an
  offset, `rename` and `unlink`.
* `contents`: what a reader of a name sees, and what each operation does to it.
-/

namespace BitRev

open Function

lemma overwrite_at_end (data chunk : Bytes) :
    overwrite 0 data data.length chunk = data ++ chunk := by
  unfold overwrite
  split
  · rename_i hnil
    rw [hnil, List.append_nil]
  · simp

/-- Names that refer to inodes below `next`, each to its own. -/
structure Named {ν : Type} (names : ν → Option Nat) (next : Nat) : Prop where
  bound : ∀ {n i}, names n = some i → i < next
  apart : ∀ {n m i}, names n = some i → names m = some i → n = m

namespace Named

variable {ν : Type} [DecidableEq ν] {names : ν → Option Nat} {next : Nat}

variable (h : Named names next)
include h

/-- A name for an inode that has none. -/
lemma link (n : ν) {i next' : Nat} (hle : next ≤ next') (hi : i < next')
    (hfree : ∀ m, names m ≠ some i) : Named (Function.update names n (some i)) next' := by
  refine ⟨fun {m j} hm => ?_, fun {m m' j} hm hm' => ?_⟩
  · rcases eq_or_ne m n with rfl | hne
    · rw [update_self] at hm
      cases hm
      exact hi
    · rw [update_of_ne hne] at hm
      exact lt_of_lt_of_le (h.bound hm) hle
  · by_cases hmn : m = n <;> by_cases hmn' : m' = n
    · rw [hmn, hmn']
    · rw [hmn, update_self] at hm
      rw [update_of_ne hmn'] at hm'
      cases hm
      exact absurd hm' (hfree m')
    · rw [hmn', update_self] at hm'
      rw [update_of_ne hmn] at hm
      cases hm'
      exact absurd hm (hfree m)
    · rw [update_of_ne hmn] at hm
      rw [update_of_ne hmn'] at hm'
      exact h.apart hm hm'

lemma unlink (n : ν) : Named (Function.update names n none) next := by
  have hold : ∀ {m j}, update names n none m = some j → names m = some j := by
    intro m j hm
    rcases eq_or_ne m n with rfl | hne
    · rw [update_self] at hm
      cases hm
    · rwa [update_of_ne hne] at hm
  exact ⟨fun hm => h.bound (hold hm), fun hm hm' => h.apart (hold hm) (hold hm')⟩

/-- An inode that lost its name has none. -/
lemma unlink_free {n : ν} {i : Nat} (hn : names n = some i) (m : ν) :
    Function.update names n none m ≠ some i := by
  intro hm
  rcases eq_or_ne m n with rfl | hne
  · rw [update_self] at hm
    cases hm
  · rw [update_of_ne hne] at hm
    exact hne (h.apart hm hn)

end Named

structure Inodes (ν : Type) where
  names : ν → Option Nat
  data : Nat → Bytes
  next : Nat
  named : Named names next

namespace Inodes

section

variable {ν : Type} [DecidableEq ν]

def empty : Inodes ν :=
  { names := fun _ => none, data := fun _ => [], next := 0
    named := ⟨fun h => (by cases h), fun h => (by cases h)⟩ }

variable (fs : Inodes ν)

/-- The file under a name is emptied, or made; its inode. -/
def create (n : ν) : Nat × Inodes ν :=
  match fs.names n with
  | some i => (i, { fs with data := Function.update fs.data i [] })
  | none =>
    (fs.next,
      { names := Function.update fs.names n (some fs.next)
        data := Function.update fs.data fs.next []
        next := fs.next + 1
        named := fs.named.link n (Nat.le_succ _) (Nat.lt_succ_self _) fun _ hm =>
          Nat.lt_irrefl _ (fs.named.bound hm) })

def write (i offset : Nat) (chunk : Bytes) : Inodes ν :=
  { fs with data := Function.update fs.data i (overwrite 0 (fs.data i) offset chunk) }

def remove (n : ν) : Inodes ν :=
  { fs with names := Function.update fs.names n none, named := fs.named.unlink n }

/-- The file under `n` gets the name `m`, whatever that was; `none` if there is none. -/
def rename (n m : ν) : Option (Inodes ν) :=
  match hn : fs.names n with
  | none => none
  | some i =>
    if n = m then some fs
    else
      some
        { fs with
          names := Function.update (Function.update fs.names n none) m (some i)
          named := (fs.named.unlink n).link m (Nat.le_refl _) (fs.named.bound hn)
            (fs.named.unlink_free hn) }

end

variable {ν : Type} [DecidableEq ν] {fs : Inodes ν} {n m : ν} {i : Nat}

/-- What a reader of the name sees. -/
def contents (fs : Inodes ν) (n : ν) : Option Bytes := (fs.names n).map fs.data

lemma create_names_self : (fs.create n).2.names n = some (fs.create n).1 := by
  unfold create
  split
  · assumption
  · exact update_self _ _ _

lemma create_data_self : (fs.create n).2.data (fs.create n).1 = [] := by
  unfold create
  split <;> exact update_self _ _ _

lemma contents_create_ne (h : m ≠ n) : (fs.create n).2.contents m = fs.contents m := by
  unfold create contents
  split
  · rename_i i hn
    cases hm : fs.names m with
    | none => rfl
    | some j =>
      have hij : j ≠ i := fun hij => h (fs.named.apart hm (hij ▸ hn))
      simp [update_of_ne hij]
  · simp only [update_of_ne h]
    cases hm : fs.names m with
    | none => rfl
    | some j =>
      have hj : j ≠ fs.next := ne_of_lt (fs.named.bound hm)
      simp [update_of_ne hj]

lemma contents_remove_ne (h : m ≠ n) : (fs.remove n).contents m = fs.contents m := by
  unfold contents remove
  simp only [update_of_ne h]

/-- The new name shows what the old one did. -/
lemma rename_contents (hn : fs.names n = some i) (h : n ≠ m) :
    ∃ fs', fs.rename n m = some fs' ∧ fs'.contents m = some (fs.data i) := by
  unfold rename
  split
  · rename_i hn'
    rw [hn] at hn'
    cases hn'
  · rename_i j hn'
    rw [hn] at hn'
    cases hn'
    rw [if_neg h]
    refine ⟨_, rfl, ?_⟩
    simp [contents]

omit [DecidableEq ν]

lemma contents_write_ne (h : fs.names m ≠ some i) (offset : Nat) (chunk : Bytes) :
    (fs.write i offset chunk).contents m = fs.contents m := by
  unfold write contents
  cases hm : fs.names m with
  | none => rfl
  | some j =>
    have hj : j ≠ i := fun hj => h (hj ▸ hm)
    simp [update_of_ne hj]

lemma write_data_self (offset : Nat) (chunk : Bytes) :
    (fs.write i offset chunk).data i = overwrite 0 (fs.data i) offset chunk :=
  update_self _ _ _

end Inodes

end BitRev
