import Mathlib

/-!
# Sets given by closed ranges

A list of closed ranges over a linear order, merged once and then searched. `merge` sorts the
ranges and joins those that overlap or touch; where `next a` is the value after `a`, or `a` itself
at the top. `contains` finds the last range that starts at or below a value by binary search
(`partitionPoint`) and looks at its end.

* `partitionPoint_eq`: binary search finds the point where a predicate turns false.
* `merge_separated`: merged ranges are in order and neither overlap nor touch.
* `contains_merge`: the search finds exactly what the ranges cover.
-/

namespace BitRev

open List

namespace Ranges

/-! ## Binary search -/

/-- The loop of a binary search among the `size` positions from `base` on. -/
def searchFrom (p : Nat → Bool) (base size : Nat) : Nat :=
  if size ≤ 1 then base + (if p base then 1 else 0)
  else searchFrom p (if p (base + size / 2) then base + size / 2 else base) (size - size / 2)
termination_by size

/-- The number of positions below `n` where `p` holds, if these come first. -/
def partitionPoint (p : Nat → Bool) (n : Nat) : Nat :=
  if n = 0 then 0 else searchFrom p 0 n

lemma searchFrom_eq {p : Nat → Bool} {n k : Nat} (hp : ∀ i < n, p i ↔ i < k)
    (base size : Nat) (h₀ : 0 < size) (hn : base + size ≤ n) (hb : base ≤ k)
    (hk : k ≤ base + size) : searchFrom p base size = k := by
  fun_induction searchFrom p base size with
  | case1 base size hsize =>
    have := hp base (by omega)
    split <;> rename_i hpb
    · rw [this] at hpb
      omega
    · rw [this] at hpb
      omega
  | case2 base size hsize ih =>
    have hmid := hp (base + size / 2) (by omega)
    split at ih <;> rename_i hpm
    · rw [if_pos hpm]
      rw [hmid] at hpm
      exact ih (by omega) (by omega) (by omega) (by omega)
    · rw [if_neg hpm]
      rw [hmid] at hpm
      exact ih (by omega) (by omega) (by omega) (by omega)

lemma partitionPoint_eq {p : Nat → Bool} {n k : Nat} (hp : ∀ i < n, p i ↔ i < k)
    (hk : k ≤ n) : partitionPoint p n = k := by
  unfold partitionPoint
  split
  · omega
  · exact searchFrom_eq hp 0 n (by omega) (by omega) (Nat.zero_le _) (by omega)

/-! ## Ranges -/

variable {T : Type*} [LinearOrder T] {next : T → T} {rs : List (T × T)} {x : T}

/-- Some range covers `x`. -/
def Covers (rs : List (T × T)) (x : T) : Prop := ∃ r ∈ rs, r.1 ≤ x ∧ x ≤ r.2

@[simp] lemma covers_nil (x : T) : ¬Covers [] x := by simp [Covers]

@[simp] lemma covers_cons (r : T × T) (rs : List (T × T)) (x : T) :
    Covers (r :: rs) x ↔ r.1 ≤ x ∧ x ≤ r.2 ∨ Covers rs x := by simp [Covers]

/-- Ranges in order that do not overlap. -/
def Separated (rs : List (T × T)) : Prop :=
  (∀ r ∈ rs, r.1 ≤ r.2) ∧ rs.Pairwise fun r r' => r.2 < r'.1

/-- By start, then by end. -/
def before (r r' : T × T) : Prop := r.1 < r'.1 ∨ r.1 = r'.1 ∧ r.2 ≤ r'.2

instance : DecidableRel (before : T × T → T × T → Prop) := fun r r' =>
  inferInstanceAs (Decidable (r.1 < r'.1 ∨ r.1 = r'.1 ∧ r.2 ≤ r'.2))

instance : Std.Total (before : T × T → T × T → Prop) where
  total r r' := by
    unfold before
    rcases lt_trichotomy r.1 r'.1 with h | h | h
    · exact .inl (.inl h)
    · rcases le_total r.2 r'.2 with h' | h'
      · exact .inl (.inr ⟨h, h'⟩)
      · exact .inr (.inr ⟨h.symm, h'⟩)
    · exact .inr (.inl h)

instance : IsTrans (T × T) before where
  trans a b c := by
    rintro (h | ⟨h, h₂⟩) (h' | ⟨h', h₂'⟩)
    · exact .inl (h.trans h')
    · exact .inl (h' ▸ h)
    · exact .inl (h ▸ h')
    · exact .inr ⟨h.trans h', h₂.trans h₂'⟩

/-- The loop over sorted ranges, with the range that is being extended. -/
def mergeFrom (next : T → T) (cur : T × T) : List (T × T) → List (T × T)
  | [] => [cur]
  | r :: rs =>
    if r.1 ≤ next cur.2 then mergeFrom next (cur.1, if cur.2 < r.2 then r.2 else cur.2) rs
    else cur :: mergeFrom next r rs

def merge (next : T → T) (rs : List (T × T)) : List (T × T) :=
  match rs.insertionSort before with
  | [] => []
  | r :: rs => mergeFrom next r rs

/-- The last range that starts at or below `x` reaches it. -/
def contains (rs : List (T × T)) (x : T) : Bool :=
  let idx := partitionPoint (fun i => (rs[i]?).any (·.1 ≤ x)) rs.length
  0 < idx && (rs[idx - 1]?).any (x ≤ ·.2)

/-- Merging neither adds nor loses a value `x`, if there is none between it and its predecessors. -/
lemma mergeFrom_covers (hx : ∀ a < x, next a ≤ x) {cur : T × T}
    (hle : ∀ r ∈ rs, cur.1 ≤ r.1) (hs : rs.Pairwise fun r r' => r.1 ≤ r'.1) :
    Covers (mergeFrom next cur rs) x ↔ cur.1 ≤ x ∧ x ≤ cur.2 ∨ Covers rs x := by
  induction rs generalizing cur with
  | nil => simp [mergeFrom]
  | cons r rs ih =>
    obtain ⟨hr, hs⟩ := pairwise_cons.1 hs
    have hcur := hle r mem_cons_self
    unfold mergeFrom
    split
    · rename_i hjoin
      have hrest : ∀ b : T, Covers (mergeFrom next (cur.1, b) rs) x ↔
          cur.1 ≤ x ∧ x ≤ b ∨ Covers rs x := fun b =>
        ih (fun r' hr' => hle r' (mem_cons_of_mem _ hr')) hs
      rw [hrest, covers_cons]
      -- the extended range covers what the two did, since nothing lies between them
      have hext : cur.1 ≤ x ∧ x ≤ (if cur.2 < r.2 then r.2 else cur.2) ↔
          cur.1 ≤ x ∧ x ≤ cur.2 ∨ r.1 ≤ x ∧ x ≤ r.2 := by
        constructor
        · rintro ⟨h₁, h₂⟩
          rcases le_or_gt x cur.2 with h | h
          · exact .inl ⟨h₁, h⟩
          · refine .inr ⟨hjoin.trans (hx _ h), ?_⟩
            split at h₂
            · exact h₂
            · exact absurd h₂ h.not_ge
        · rintro (⟨h₁, h₂⟩ | ⟨h₁, h₂⟩)
          · refine ⟨h₁, ?_⟩
            split_ifs with hlt
            · exact h₂.trans hlt.le
            · exact h₂
          · refine ⟨hcur.trans h₁, ?_⟩
            split_ifs with hge
            · exact h₂
            · exact h₂.trans (not_lt.1 hge)
      rw [hext, or_assoc]
    · rw [covers_cons, ih hr hs, covers_cons]

lemma mergeFrom_separated {cur : T × T}
    (hnext : ∀ r ∈ cur :: rs, r.2 ≤ next r.2) (hcur : cur.1 ≤ cur.2) (hv : ∀ r ∈ rs, r.1 ≤ r.2)
    (hs : rs.Pairwise fun r r' => r.1 ≤ r'.1) (hle : ∀ r ∈ rs, cur.1 ≤ r.1) :
    (Separated (mergeFrom next cur rs) ∧
      (mergeFrom next cur rs).Pairwise fun r r' => next r.2 < r'.1) ∧
      ∀ r ∈ mergeFrom next cur rs, cur.1 ≤ r.1 := by
  induction rs generalizing cur with
  | nil => simp [mergeFrom, Separated, hcur]
  | cons r rs ih =>
    obtain ⟨hr, hs⟩ := pairwise_cons.1 hs
    obtain ⟨hnc, hn⟩ := forall_mem_cons.1 hnext
    obtain ⟨hnr, hns⟩ := forall_mem_cons.1 hn
    have hv' : ∀ r' ∈ rs, r'.1 ≤ r'.2 := fun r' hr' => hv r' (mem_cons_of_mem _ hr')
    unfold mergeFrom
    split
    · refine ih (forall_mem_cons.2 ⟨?_, hns⟩) ?_ hv' hs fun r' hr' => hle r' (mem_cons_of_mem _ hr')
      · dsimp only
        split
        · exact hnr
        · exact hnc
      · dsimp only
        split_ifs with hlt
        · exact hcur.trans hlt.le
        · exact hcur
    · rename_i hgap
      obtain ⟨⟨⟨hvalid, hpair⟩, hgaps⟩, hfrom⟩ := ih hn (hv r mem_cons_self) hv' hs hr
      have hlt : cur.2 < r.1 := hnc.trans_lt (not_le.1 hgap)
      refine ⟨⟨⟨forall_mem_cons.2 ⟨hcur, hvalid⟩, pairwise_cons.2 ⟨?_, hpair⟩⟩,
        pairwise_cons.2 ⟨?_, hgaps⟩⟩, forall_mem_cons.2 ⟨le_rfl, ?_⟩⟩
      · exact fun r' hr' => hlt.trans_le (hfrom r' hr')
      · exact fun r' hr' => (not_le.1 hgap).trans_le (hfrom r' hr')
      · exact fun r' hr' => (hcur.trans hlt.le).trans (hfrom r' hr')

lemma sort_starts (rs : List (T × T)) :
    (rs.insertionSort before).Pairwise fun r r' => r.1 ≤ r'.1 := by
  refine (pairwise_insertionSort before rs).imp ?_
  rintro r r' (h | h)
  · exact h.le
  · exact h.1.le

lemma merge_separated (hnext : ∀ r ∈ rs, r.2 ≤ next r.2)
    (hv : ∀ r ∈ rs, r.1 ≤ r.2) :
    Separated (merge next rs) ∧ (merge next rs).Pairwise fun r r' => next r.2 < r'.1 := by
  have hn' : ∀ r ∈ rs.insertionSort before, r.2 ≤ next r.2 := fun r hr =>
    hnext r ((mem_insertionSort before).1 hr)
  have hv' : ∀ r ∈ rs.insertionSort before, r.1 ≤ r.2 := fun r hr =>
    hv r ((mem_insertionSort before).1 hr)
  have hs := sort_starts rs
  unfold merge
  split <;> rename_i hsort
  · exact ⟨⟨by simp, .nil⟩, .nil⟩
  · rw [hsort] at hn' hv' hs
    obtain ⟨hr, hs⟩ := pairwise_cons.1 hs
    exact (mergeFrom_separated hn' (hv' _ mem_cons_self)
      (fun r hr => hv' r (mem_cons_of_mem _ hr)) hs hr).1

lemma merge_covers (hx : ∀ a < x, next a ≤ x) (rs : List (T × T)) :
    Covers (merge next rs) x ↔ Covers rs x := by
  have hperm : Covers (rs.insertionSort before) x ↔ Covers rs x := by
    simp only [Covers, mem_insertionSort]
  have hs := sort_starts rs
  rw [← hperm]
  unfold merge
  split <;> rename_i hsort
  · rw [hsort]
  · rw [hsort] at hs ⊢
    obtain ⟨hr, hs⟩ := pairwise_cons.1 hs
    rw [mergeFrom_covers hx hr hs, covers_cons]

/-- In separated ranges the ones that start at or below `x` come first. -/
lemma Separated.starts (h : Separated rs) (x : T) :
    ∀ i < rs.length, (rs[i]?).any (·.1 ≤ x) ↔
      i < (rs.takeWhile fun r => decide (r.1 ≤ x)).length := by
  induction rs with
  | nil => simp
  | cons r rs ih =>
    obtain ⟨hv, hpair⟩ := h
    obtain ⟨hr, hpair⟩ := pairwise_cons.1 hpair
    have hrest := ih ⟨fun r' hr' => hv r' (mem_cons_of_mem _ hr'), hpair⟩
    intro i hi
    rw [takeWhile_cons]
    by_cases hx : r.1 ≤ x
    · rw [if_pos (decide_eq_true hx)]
      cases i with
      | zero => simp [hx]
      | succ i => simpa using hrest i (by simpa using hi)
    · rw [if_neg (by simpa using hx)]
      cases i with
      | zero => simp [not_le.1 hx]
      | succ i =>
        have hlt : i < rs.length := by simpa using hi
        have hle := hr rs[i] (getElem_mem hlt)
        have : ¬rs[i].1 ≤ x := fun h' =>
          hx (((hv r mem_cons_self).trans hle.le).trans h')
        simpa [hlt] using this

lemma contains_of_separated (h : Separated rs) (x : T) : contains rs x ↔ Covers rs x := by
  have hstarts := h.starts x
  have hk := partitionPoint_eq hstarts (takeWhile_sublist _).length_le
  have hlen : (rs.takeWhile fun r => decide (r.1 ≤ x)).length ≤ rs.length :=
    (takeWhile_sublist _).length_le
  unfold contains
  rw [hk]
  generalize (rs.takeWhile fun r => decide (r.1 ≤ x)).length = k at hstarts hlen ⊢
  simp only [Bool.and_eq_true, decide_eq_true_eq]
  constructor
  · rintro ⟨hpos, hend⟩
    have hlast : k - 1 < rs.length := by omega
    have hstart := (hstarts (k - 1) hlast).2 (by omega)
    rw [getElem?_eq_getElem hlast] at hstart hend
    exact ⟨_, getElem_mem hlast, of_decide_eq_true hstart, of_decide_eq_true hend⟩
  · rintro ⟨r, hr, hlo, hhi⟩
    obtain ⟨i, hi, rfl⟩ := getElem_of_mem hr
    have hik : i < k := (hstarts i hi).1 (by simpa [hi] using hlo)
    have hlast : k - 1 < rs.length := by omega
    -- a later range would start above the end of this one, and so above `x`
    have heq : i = k - 1 := by
      by_contra hne
      have hsep := pairwise_iff_getElem.1 h.2 i (k - 1) hi hlast (by omega)
      have hstart := (hstarts (k - 1) hlast).2 (by omega)
      rw [getElem?_eq_getElem hlast] at hstart
      exact absurd (hhi.trans_lt hsep) (of_decide_eq_true hstart).not_gt
    refine ⟨by omega, ?_⟩
    rw [← heq, getElem?_eq_getElem hi]
    exact decide_eq_true hhi

lemma contains_merge (hnext : ∀ r ∈ rs, r.2 ≤ next r.2) (hv : ∀ r ∈ rs, r.1 ≤ r.2)
    (hx : ∀ a < x, next a ≤ x) : contains (merge next rs) x ↔ Covers rs x := by
  rw [contains_of_separated (merge_separated hnext hv).1, merge_covers hx]

end Ranges

end BitRev
