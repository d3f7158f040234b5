import BitRev.Metainfo.Bencode

/-!
# The nesting of the skipper

`check_bencode_depth` (`file.rs`) reads a metainfo from left to right, `skip_bencode` recurses into
it. They cut malformed bytes differently, but as long as the skipper goes on, both are at the same
places, and the scanner's depth there is the number of nested calls (`called_le`).
-/

namespace BitRev.Bencode

open List Option

variable {data : Bytes} {d i j n : Nat}

/-- The loop over the items from `i` on has come to `j`. -/
inductive Loop (data : Bytes) (i : Nat) : Nat → Prop
  | start : Loop data i i
  | next {j j' n : Nat} : Loop data i j → data[j]? ≠ some (chr 'e') →
    skipBencode data n j = .ok j' → Loop data i j'

/-- The loop of `info_dict_range` has come to the key at `i`. -/
inductive Keys (data : Bytes) : Nat → Prop
  | start : data.head? = some (chr 'd') → Keys data 1
  | next {i j n : Nat} {key : Bytes} {afterKey : Nat} : Keys data i → data[i]? ≠ some (chr 'e') →
    parseBencodeByteString data i = .ok (key, afterKey) →
    skipBencode data n afterKey = .ok j → key ≠ ascii "info" → Keys data j

/-- `skip_bencode` is called at `i`, inside of `k - 1` other calls of it. -/
inductive Called (data : Bytes) : Nat → Nat → Prop
  | value {i : Nat} {key : Bytes} {afterKey : Nat} : Keys data i → data[i]? ≠ some (chr 'e') →
    parseBencodeByteString data i = .ok (key, afterKey) → Called data 1 afterKey
  | item {k i j : Nat} : Called data k i → data[i]? = some (chr 'l') ∨ data[i]? = some (chr 'd') →
    Loop data (i + 1) j → j < data.length → data[j]? ≠ some (chr 'e') → Called data (k + 1) j

/-! ## The scanner -/

/-- The scanner finds nothing wrong from here on. -/
def Safe (bs : Bytes) (d : Nat) : Prop := ∃ n, bs.length ≤ n ∧ scanDepth n bs d = .ok ()

lemma not_control {b : UInt8} (hb : isAsciiDigit b) :
    ¬ (b = chr 'd' ∨ b = chr 'l') ∧ b ≠ chr 'e' ∧ b ≠ chr 'i' := by
  refine ⟨?_, ?_, ?_⟩ <;> (rintro h; revert hb; rcases h with rfl | rfl <;> decide)

lemma parseUsize_digits {s : Bytes} {len : Nat} (h : parseUsize s = some len) :
    ∃ ds, ds ≠ [] ∧ (∀ b ∈ ds, isAsciiDigit b) ∧ parseUsize ds = some len ∧
      (s = ds ∨ s = chr '+' :: ds) := by
  have hparse := h
  by_cases hplus : s.head? = some (chr '+')
  · simp only [parseUsize, if_pos hplus] at h
    obtain ⟨hds, hlen⟩ := ite_none_right_eq_some.1 h
    have hall := all_eq_true.1 hds.2.1
    refine ⟨s.tail, hds.1, hall, ?_, .inr (cons_head?_tail hplus).symm⟩
    have hdigit : s.tail.head? ≠ some (chr '+') := fun hhead =>
      absurd (hall _ (mem_of_mem_head? hhead)) (by decide)
    simp only [parseUsize, if_neg hdigit]
    exact h
  · simp only [parseUsize, if_neg hplus] at h
    obtain ⟨hds, -⟩ := ite_none_right_eq_some.1 h
    exact ⟨s, hds.1, all_eq_true.1 hds.2.1, hparse, .inl rfl⟩

/-- The first `c` from `i` on divides the bytes there. -/
lemma drop_eq_append {c : UInt8} {p : Nat} (h : (data.drop i).findIdx? (· = c) = some p) :
    data.drop i = (data.drop i).take p ++ c :: data.drop (i + p + 1) ∧
      ∀ b ∈ (data.drop i).take p, b ≠ c := by
  obtain ⟨hp, hc, hbefore⟩ := findIdx?_eq_some_iff_getElem.1 h
  have htail := drop_eq_getElem_cons hp
  rw [of_decide_eq_true hc] at htail
  constructor
  · rw [add_assoc, ← drop_drop, ← htail, take_append_drop]
  · intro b hb
    obtain ⟨k, hk, rfl⟩ := mem_take_iff_getElem.1 hb
    exact of_decide_eq_false (Bool.eq_false_iff.2 (hbefore k (by omega)))

lemma drop_eq_cons {b : UInt8} (h : data[i]? = some b) : data.drop i = b :: data.drop (i + 1) := by
  obtain ⟨hi, rfl⟩ := List.getElem?_eq_some_iff.1 h
  exact drop_eq_getElem_cons hi

namespace Safe

variable {b : UInt8} {bs : Bytes}

lemma turn (h : Safe (b :: bs) d) :
    ∃ n, bs.length ≤ n ∧ scanDepth (n + 1) (b :: bs) d = .ok () := by
  obtain ⟨n, hn, h⟩ := h
  cases n with
  | zero => cases hn
  | succ n => exact ⟨n, Nat.le_of_succ_le_succ hn, h⟩

lemma opened (h : Safe (b :: bs) d) (hb : b = chr 'd' ∨ b = chr 'l') :
    d + 1 ≤ maxBencodeDepth ∧ Safe bs (d + 1) := by
  obtain ⟨n, hn, h⟩ := h.turn
  simp only [scanDepth, if_pos hb] at h
  split_ifs at h
  exact ⟨by omega, n, hn, h⟩

lemma closed (h : Safe (chr 'e' :: bs) (d + 1)) : Safe bs d := by
  obtain ⟨n, hn, h⟩ := h.turn
  exact ⟨n, hn, h⟩

lemma plus (h : Safe (chr '+' :: bs) d) : Safe bs d := by
  obtain ⟨n, hn, h⟩ := h.turn
  exact ⟨n, hn, h⟩

lemma integer {rest : Bytes} (h : Safe (chr 'i' :: (bs ++ chr 'e' :: rest)) d)
    (hne : ∀ b ∈ bs, b ≠ chr 'e') : Safe rest d := by
  obtain ⟨n, hn, h⟩ := h.turn
  have hdrop : (bs ++ chr 'e' :: rest).dropWhile (· ≠ chr 'e') = chr 'e' :: rest := by
    rw [dropWhile_append_of_pos fun b hb => decide_eq_true (hne b hb)]
    rfl
  refine ⟨n, ?_, ?_⟩
  · simp only [length_cons, length_append] at hn
    omega
  · change scanDepth n (drop 1 _) d = _ at h
    rwa [hdrop] at h

lemma string {rest : Bytes} {len : Nat} (h : Safe (bs ++ chr ':' :: rest) d) (hne : bs ≠ [])
    (hall : ∀ b ∈ bs, isAsciiDigit b) (hlen : parseUsize bs = some len) :
    Safe (rest.drop len) d := by
  have htake : (bs ++ chr ':' :: rest).takeWhile isAsciiDigit = bs := by
    rw [takeWhile_append_of_pos hall]
    exact (append_right_eq_self).2 rfl
  have hdrop : (bs ++ chr ':' :: rest).dropWhile isAsciiDigit = chr ':' :: rest := by
    rw [dropWhile_append_of_pos hall]
    rfl
  obtain ⟨b, bs, rfl⟩ := exists_cons_of_ne_nil hne
  obtain ⟨hopen, hclose, hint⟩ := not_control (hall b mem_cons_self)
  rw [cons_append] at h htake hdrop
  obtain ⟨n, hn, h⟩ := h.turn
  refine ⟨n, ?_, ?_⟩
  · simp only [length_append, length_cons, length_drop] at hn ⊢
    omega
  · simpa only [scanDepth, if_neg hopen, if_neg hclose, if_neg hint, hall b mem_cons_self,
      if_true, hdrop, htake, hlen, getD_some] using h

/-- The scanner goes over a byte string as the parser does, an explicit `+` included. -/
lemma parsed {key : Bytes} (h : Safe (data.drop i) d)
    (hp : parseBencodeByteString data i = .ok (key, j)) : Safe (data.drop j) d := by
  unfold parseBencodeByteString at hp
  split at hp
  · cases hp
  rename_i p hfind
  split at hp
  · cases hp
  rename_i len hlen
  simp only at hp
  split at hp
  · cases hp
  split at hp
  · cases hp
  cases hp
  -- the bytes from `i` on are the digits, the colon and the rest
  rw [(drop_eq_append hfind).1] at h
  rw [← drop_drop]
  obtain ⟨ds, hne, hall, hds, hs | hs⟩ := parseUsize_digits hlen
  · rw [hs] at h
    exact h.string hne hall hds
  · rw [hs] at h
    exact h.plus.string hne hall hds

/-- So it does over a value, and over the items up to the end of a list or dict. -/
lemma skipped : (∀ i j d, skipBencode data n i = .ok j → Safe (data.drop i) d →
      Safe (data.drop j) d) ∧
    ∀ i j d, skipItems data n i = .ok j → Safe (data.drop i) (d + 1) → Safe (data.drop j) d := by
  induction n with
  | zero => exact ⟨fun _ _ _ h => (by cases h), fun _ _ _ h => (by cases h)⟩
  | succ n ih =>
    constructor
    · intro i j d hskip h
      rw [skipBencode] at hskip
      split at hskip
      · cases hskip
      rename_i b hb
      have hcons := h
      rw [drop_eq_cons hb] at hcons
      split at hskip
      · rename_i hi
        subst hi
        split at hskip
        · cases hskip
        rename_i p hfind
        cases hskip
        obtain ⟨hcut, hne⟩ := drop_eq_append hfind
        rw [hcut] at hcons
        exact hcons.integer hne
      split at hskip
      · exact ih.2 _ _ _ hskip (hcons.opened (by tauto)).2
      split_ifs at hskip
      cases hp : parseBencodeByteString data i with
      | error e => rw [hp] at hskip; cases hskip
      | ok r =>
        rw [hp] at hskip
        cases hskip
        exact h.parsed hp
    · intro i j d hskip h
      rw [skipItems] at hskip
      split at hskip
      · cases hskip
      rename_i b hb
      split at hskip
      · rename_i he
        subst he
        cases hskip
        rw [drop_eq_cons hb] at h
        exact h.closed
      split at hskip
      · rename_i j' hj'
        exact ih.2 _ _ _ hskip (ih.1 _ _ _ hj' h)
      · cases hskip

end Safe

lemma Loop.safe (hl : Loop data i j) (h : Safe (data.drop i) d) : Safe (data.drop j) d := by
  induction hl with
  | start => exact h
  | next _ _ hskip ih => exact Safe.skipped.1 _ _ _ hskip ih

lemma Keys.safe (hk : Keys data i) (h : Safe data 0) : Safe (data.drop i) 1 := by
  induction hk with
  | start hd =>
    rw [← cons_head?_tail hd] at h ⊢
    exact (h.opened (.inl rfl)).2
  | next _ _ hp hskip _ ih => exact Safe.skipped.1 _ _ _ hskip (ih.parsed hp)

lemma Called.safe {k : Nat} (hc : Called data k i) (h : Safe data 0) :
    k ≤ maxBencodeDepth ∧ Safe (data.drop i) k := by
  induction hc with
  | value hk _ hp => exact ⟨by decide, (hk.safe h).parsed hp⟩
  | item _ hopen hl _ _ ih =>
    rcases hopen with hb | hb <;> rw [drop_eq_cons hb] at ih
    · obtain ⟨hle, hs⟩ := ih.2.opened (.inr rfl)
      exact ⟨hle, hl.safe hs⟩
    · obtain ⟨hle, hs⟩ := ih.2.opened (.inl rfl)
      exact ⟨hle, hl.safe hs⟩

/-- In a metainfo that passes the check, `skip_bencode` never nests deeper than the limit. -/
theorem called_le {k : Nat} (h : checkBencodeDepth data = .ok ()) (hc : Called data k i) :
    k ≤ maxBencodeDepth :=
  (hc.safe ⟨_, le_refl _, h⟩).1

theorem called_le_two : checkBencodeDepth (ascii "d4:infoli7eee") = .ok () ∧
    Called (ascii "d4:infoli7eee") 2 8 ∧ 2 ≤ maxBencodeDepth := by
  have hok : checkBencodeDepth (ascii "d4:infoli7eee") = .ok () := by decide
  have hc : Called (ascii "d4:infoli7eee") 2 8 :=
    .item (i := 7) (.value (.start rfl) (by decide) rfl) (.inl rfl) .start (by decide) (by decide)
  exact ⟨hok, hc, called_le hok hc⟩

end BitRev.Bencode
