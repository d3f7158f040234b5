import Mathlib

/-!
# One array over several files

Files hold lists that may be shorter than they are meant to be; what is missing reads as `zero`.
`segment` is what a file shows of its first `len` entries, and `flat` lays the segments of several
files one after another into one array.

* `splice l pos bs`: `l` with `bs` written over it at `pos`.
* `segment_overwrite`, `flat_overwrite`: writing into a file writes into the array.
* `segment_read`, `flat_read`: reading from a file reads from the array.
-/

namespace BitRev

open List Function

variable {β ι : Type}

def splice (l : List β) (pos : Nat) (bs : List β) : List β :=
  l.take pos ++ bs ++ l.drop (pos + bs.length)

def window (l : List β) (pos len : Nat) : List β := (l.drop pos).take len

section Splice

variable {l a b bs : List β} {pos lo len hi : Nat}

lemma take_splice (h : lo ≤ pos) (hpos : pos ≤ l.length) :
    (splice l pos bs).take lo = l.take lo := by
  rw [splice, append_assoc, take_append_of_le_length (by rw [length_take]; omega),
    take_take, min_eq_left h]

lemma drop_splice (h : pos + bs.length ≤ hi) (hpos : pos ≤ l.length) :
    (splice l pos bs).drop hi = l.drop hi := by
  have hlen : (l.take pos ++ bs).length = pos + bs.length := by
    rw [length_append, length_take, min_eq_left hpos]
  rw [splice, drop_append, hlen, drop_of_length_le (by omega), nil_append,
    drop_drop, Nat.add_sub_cancel' h]

lemma splice_append_right (h : a.length ≤ pos) :
    splice (a ++ l) pos bs = a ++ splice l (pos - a.length) bs := by
  rw [splice, splice, take_append, drop_append, take_of_length_le h,
    drop_of_length_le (by omega), nil_append, append_assoc, append_assoc,
    append_assoc, Nat.sub_add_comm h]

lemma splice_append_left (h : pos + bs.length ≤ a.length) :
    splice (a ++ l) pos bs = splice a pos bs ++ l := by
  rw [splice, splice, take_append_of_le_length (by omega), drop_append_of_le_length h,
    append_assoc, append_assoc, append_assoc]

/-- A window after a write that lies in it. -/
lemma window_splice (hlo : lo ≤ pos) (hhi : pos + bs.length ≤ lo + len) (hl : lo + len ≤ l.length) :
    window (splice l pos bs) lo len = splice (window l lo len) (pos - lo) bs := by
  refine ext_getElem? fun k => ?_
  simp only [window, splice, getElem?_take, getElem?_drop, getElem?_append,
    length_append, length_take, length_drop]
  grind

lemma take_window_drop (l : List β) (lo len : Nat) :
    l.take lo ++ window l lo len ++ l.drop (lo + len) = l := by
  rw [window, append_assoc, ← drop_drop, take_append_drop, take_append_drop]

/-- A window only depends on the entries before its end. -/
lemma window_congr_take {h : Nat} (ht : l.take h = a.take h) (hw : lo + len ≤ h) :
    window l lo len = window a lo len := by
  have htake : ∀ m : List β, window (m.take h) lo len = window m lo len := by
    intro m
    rw [window, window, drop_take, take_take, min_eq_left (by omega)]
  rw [← htake l, ht, htake a]

/-- A window only depends on the entries from its start on. -/
lemma window_congr_drop (h : l.drop hi = a.drop hi) (hw : hi ≤ lo) :
    window l lo len = window a lo len := by
  have hdrop : ∀ m : List β, window (m.drop hi) (lo - hi) len = window m lo len := by
    intro m
    rw [window, window, drop_drop, Nat.add_sub_cancel' hw]
  rw [← hdrop l, h, hdrop a]

lemma window_append_right (h : a.length ≤ pos) :
    window (a ++ l) pos len = window l (pos - a.length) len := by
  rw [window, window, drop_append, drop_of_length_le h, nil_append]

lemma window_window {pos' len' : Nat} (h : pos' + len' ≤ len) :
    window (window l pos len) pos' len' = window l (pos + pos') len' := by
  rw [window, window, window, drop_take, take_take, drop_drop,
    min_eq_left (by omega)]

lemma length_window (h : pos + len ≤ l.length) : (window l pos len).length = len := by
  rw [window, length_take, length_drop]
  omega

lemma window_add (l : List β) (pos len len' : Nat) :
    window l pos len ++ window l (pos + len) len' = window l pos (len + len') := by
  rw [window, window, window, take_add, drop_drop]

end Splice

section Segments

variable (zero : β)

section

variable (content : List β)

/-- The first `len` entries of a file. -/
def segment (len : Nat) : List β :=
  (List.range len).map fun k => content.getD k zero

/-- `bs` written into a file at `offset`; what lies between the end of the file and `offset` is
filled with `zero`. -/
def overwrite (offset : Nat) (bs : List β) : List β :=
  if bs = [] then content
  else
    (content ++ List.replicate (offset - content.length) zero).take offset ++ bs ++
      content.drop (offset + bs.length)

@[simp]
lemma length_segment (len : Nat) : (segment zero content len).length = len := by
  simp [segment]

lemma length_le_overwrite (offset : Nat) (bs : List β) :
    content.length ≤ (overwrite zero content offset bs).length := by
  unfold overwrite
  split
  · exact le_refl _
  · simp only [length_append, length_take, length_replicate, length_drop]
    omega

lemma segment_overwrite {content bs : List β} {offset len : Nat} (h : offset + bs.length ≤ len) :
    segment zero (overwrite zero content offset bs) len =
      splice (segment zero content len) offset bs := by
  rcases eq_or_ne bs [] with rfl | hne
  · simp [overwrite, splice]
  refine ext_getElem? fun k => ?_
  simp only [segment, overwrite, if_neg hne, splice, getElem?_map, getElem?_append, getElem?_take,
    getElem?_drop, length_append, length_take, length_map, length_range, length_replicate,
    getD_eq_getElem?_getD, getElem?_replicate]
  grind

lemma segment_read {offset n len : Nat} (h : offset + n ≤ len) :
    window (segment zero content len) offset (window content offset n).length =
      window content offset n := by
  refine ext_getElem? fun k => ?_
  simp only [segment, window, getElem?_take, getElem?_drop, getElem?_map,
    length_take, length_drop, getD_eq_getElem?_getD]
  grind

end

variable [DecidableEq ι]

/-- The array that the segments of the files make up, each given by its length and its file. -/
def flat (files : ι → List β) (segments : List (Nat × ι)) : List β :=
  segments.flatMap fun (len, file) => segment zero (files file) len

def startOf (segments : List (Nat × ι)) (i : Nat) : Nat := ((segments.take i).map Prod.fst).sum

omit [DecidableEq ι] in
@[simp]
lemma length_flat (files : ι → List β) (segments : List (Nat × ι)) :
    (flat zero files segments).length = (segments.map Prod.fst).sum := by
  simp [flat, length_flatMap]

lemma flat_update_of_not_mem (files : ι → List β) {segments : List (Nat × ι)} {file : ι}
    (h : file ∉ segments.map Prod.snd) (content : List β) :
    flat zero (Function.update files file content) segments = flat zero files segments := by
  rw [flat, flat, flatMap_def, flatMap_def]
  refine congrArg flatten (map_congr_left fun x hx => ?_)
  have hne : x.2 ≠ file := fun he => h (he ▸ mem_map_of_mem hx)
  simp only [update_of_ne hne]

/-- Writing inside the `i`-th segment. -/
lemma flat_overwrite (files : ι → List β) {bs : List β} {offset len : Nat} {file : ι} :
    ∀ {segments : List (Nat × ι)} {i : Nat}, (segments.map Prod.snd).Nodup →
      segments[i]? = some (len, file) → offset + bs.length ≤ len →
      flat zero (Function.update files file (overwrite zero (files file) offset bs)) segments =
        splice (flat zero files segments) (startOf segments i + offset) bs
  | (len₀, file₀) :: segments, 0, hnd, hi, hle => by
    obtain ⟨rfl, rfl⟩ : len₀ = len ∧ file₀ = file := by simpa using hi
    have hrest := flat_update_of_not_mem zero files (nodup_cons.1 hnd).1
      (overwrite zero (files file₀) offset bs)
    simp only [flat, flatMap_cons, update_self, startOf] at hrest ⊢
    rw [hrest, segment_overwrite zero hle,
      splice_append_left (by simpa using hle)]
    simp
  | (len₀, file₀) :: segments, i + 1, hnd, hi, hle => by
    rw [getElem?_cons_succ] at hi
    have hne : file₀ ≠ file := by
      rintro rfl
      have hmem := mem_map_of_mem (f := Prod.snd) (mem_of_getElem? hi)
      exact (nodup_cons.1 hnd).1 hmem
    have hrest := flat_overwrite files (nodup_cons.1 hnd).2 hi hle
    simp only [flat, flatMap_cons, update_of_ne hne] at hrest ⊢
    rw [hrest, splice_append_right (by simp [startOf]; omega)]
    simp [startOf, add_assoc]

omit [DecidableEq ι] in
/-- Reading inside the `i`-th segment. -/
lemma flat_read (files : ι → List β) {offset n len : Nat} {file : ι} :
    ∀ {segments : List (Nat × ι)} {i : Nat}, segments[i]? = some (len, file) → offset + n ≤ len →
      window (flat zero files segments) (startOf segments i + offset)
          (window (files file) offset n).length =
        window (files file) offset n
  | (len₀, file₀) :: segments, 0, hi, hle => by
    obtain ⟨rfl, rfl⟩ : len₀ = len ∧ file₀ = file := by simpa using hi
    have hread := segment_read zero (files file₀) hle
    have hlen : (window (files file₀) offset n).length ≤ n := by
      rw [window, length_take]
      exact min_le_left _ _
    simp only [startOf, take_zero, map_nil, sum_nil, zero_add]
    refine (window_congr_take (h := len₀) ?_ (by omega)).trans hread
    rw [flat, flatMap_cons, take_left' (by simp), take_of_length_le (by simp)]
  | (len₀, file₀) :: segments, i + 1, hi, hle => by
    rw [getElem?_cons_succ] at hi
    have hrest := flat_read files hi hle
    have hstart : startOf ((len₀, file₀) :: segments) (i + 1) = len₀ + startOf segments i := by
      simp [startOf]
    rw [hstart, flat, flatMap_cons, window_append_right (by simp; omega), length_segment]
    rw [← flat, show len₀ + startOf segments i + offset - len₀ = startOf segments i + offset by
      omega]
    exact hrest

end Segments

end BitRev
