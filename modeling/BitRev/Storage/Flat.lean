import BitRev.Storage.Tiling

/-!
# A storage is one flat array

`FlatArray.call` is what a storage is for: an array of the torrent's length, in which a piece can
be written and a block read; `Store.openWith_flat` that a storage is such an array.

`Store.Sound` is the invariant: the numbers of the torrent fit together, the files are different
ones, and every piece in the cache is the one in the files. `start_write`, `start_read` and
`resume_read` say what a call does before and after its await, and `writeClosure_wp` and
`readClosure_wp` what its closure does.
-/

namespace BitRev

open Torrent.WellFormed List Option

namespace FlatArray

def call (t : Torrent) (a : Bytes) : BlockCall → Except StorageError Bytes × Bytes
  | .writePiece index buf =>
    if index ≥ t.pieceHashes.length then (.error (.pieceOutOfRange index), a)
    else if buf.length ≠ t.pieceSize index then
      (.error (.blockOutOfBounds index 0 (buf.length % 2 ^ 32)), a)
    else (.ok [], splice a (t.pieceStart index) buf)
  | .readBlock index start length =>
    if index ≥ t.pieceHashes.length then (.error (.pieceOutOfRange index), a)
    else if length = 0 ∨ start + length > t.pieceSize index then
      (.error (.blockOutOfBounds index start length), a)
    else (.ok (window a (t.pieceStart index + start) length), a)

def calls (t : Torrent) (a : Bytes) : List BlockCall → List (Except StorageError Bytes) × Bytes
  | [] => ([], a)
  | c :: cs =>
    let (rs, a') := calls t (call t a c).2 cs
    ((call t a c).1 :: rs, a')

inductive Step (t : Torrent) (a : Bytes) : BlockCall → Except StorageError Bytes → Bytes → Prop
  | exact (c : BlockCall) : Step t a c (call t a c).1 (call t a c).2
  | readFailed (index start length : Nat) (msg : String) :
    Step t a (.readBlock index start length) (.error (.io msg)) a
  | writeFailed (index : Nat) (buf : Bytes) (msg : String) (a' : Bytes) :
    index < t.pieceHashes.length → a.take (t.pieceStart index) = a'.take (t.pieceStart index) →
    a.drop (t.pieceStart index + t.pieceSize index) =
      a'.drop (t.pieceStart index + t.pieceSize index) →
    Step t a (.writePiece index buf) (.error (.io msg)) a'

inductive Steps (t : Torrent) :
    Bytes → List BlockCall → List (Except StorageError Bytes) → Bytes → Prop
  | nil (a : Bytes) : Steps t a [] [] a
  | cons {a a' a'' : Bytes} {c : BlockCall} {cs : List BlockCall} {r : Except StorageError Bytes}
    {rs : List (Except StorageError Bytes)} :
    Step t a c r a' → Steps t a' cs rs a'' → Steps t a (c :: cs) (r :: rs) a''

/-- A result that is not an I/O error. -/
def Clean (r : Except StorageError Bytes) : Prop := ∀ msg, r ≠ .error (.io msg)

lemma call_clean (t : Torrent) (a : Bytes) (c : BlockCall) : Clean (call t a c).1 := by
  intro msg
  unfold call
  split
  · split
    · simp
    · split <;> simp
  · split
    · simp
    · split <;> simp

lemma Step.clean {t : Torrent} {a a' : Bytes} {c : BlockCall} {r : Except StorageError Bytes}
    (h : Step t a c r a') (hr : Clean r) : (r, a') = call t a c := by
  cases h with
  | exact => rfl
  | readFailed _ _ _ msg | writeFailed _ _ msg => exact absurd rfl (hr msg)

/-- Without I/O errors the results are the array's. -/
lemma Steps.clean {t : Torrent} {a a' : Bytes} {cs : List BlockCall}
    {rs : List (Except StorageError Bytes)} (h : Steps t a cs rs a') (hr : ∀ r ∈ rs, Clean r) :
    (rs, a') = calls t a cs := by
  induction h with
  | nil => rfl
  | cons hstep _ ih =>
    have hc := hstep.clean (hr _ mem_cons_self)
    have hcs := ih fun r h => hr r (mem_cons_of_mem _ h)
    simp only [calls, ← hc, ← hcs]

end FlatArray

namespace Store

open Storage

variable {st st' : Store} {d d' : Contents} {smooth : Prop}

abbrev segments (st : Store) : List (Nat × Nat) := st.torrent.segments st.files

/-- The array the files make up. -/
abbrev array (st : Store) (d : Contents) : Bytes := arrayOf st.segments d

abbrev piece (st : Store) (d : Contents) (index : Nat) : Bytes :=
  window (st.array d) (st.torrent.pieceStart index) (st.torrent.pieceSize index)

/-- The piece `cache_get` finds. -/
def cached (st : Store) (index : Nat) : Option Bytes :=
  if st.cacheCapacity = 0 then none else st.cache.map.lookup index

/-- A torrent whose numbers fit together, in different files. -/
structure Laid (st : Store) : Prop where
  wellFormed : st.torrent.WellFormed
  files : st.files.length = st.torrent.files.length
  distinct : st.files.Nodup

/-- Every piece in the cache is the one in the files. -/
structure Sound (st : Store) (d : Contents) : Prop extends st.Laid where
  cached : ∀ index p, st.cached index = some p → p = st.piece d index

namespace Laid

lemma length_array (h : st.Laid) (d : Contents) :
    (st.array d).length = st.torrent.length.toNat := by
  rw [array, arrayOf, length_flat, segments_sum h.files h.wellFormed]

lemma length_piece (h : st.Laid) (d : Contents) {index : Nat}
    (hi : index < st.torrent.pieceHashes.length) :
    (st.piece d index).length = st.torrent.pieceSize index :=
  length_window (by rw [h.length_array]; exact h.wellFormed.pieceStop_le hi)

lemma writeClosure_wp (h : st.Laid) {index : Nat} {buf : Bytes}
    (hi : index < st.torrent.pieceHashes.length) (hbuf : buf.length = st.torrent.pieceSize index)
    (smooth : Prop) (d : Contents) :
    (st.writeClosure index buf).wp
      (writing st.segments (st.torrent.pieceStart index) (st.torrent.pieceSize index) smooth)
      (fun r d' => (∀ bs, r = .ok bs → st.piece d' index = buf) ∧ (smooth → ∃ bs, r = .ok bs)) d := by
  have hwf := h.wellFormed
  have htiles := hwf.mapPieceToFiles_tiles h.files hi
  have hwp := writeMapped_wp smooth buf
    (by rw [segments_snd h.files]; exact h.distinct)
    (by rw [segments_sum h.files hwf]; exact hwf.pieceStop_le hi)
    (opens st.torrent st.files) (st.torrent.mapPieceToFiles index) buf d
    (by rw [hbuf, Nat.zero_add]; exact htiles) (by omega) (by simp [window])
    (written_zero _ _ _ _ _)
  rw [Nat.zero_add] at hwp
  refine Prog.wp_bind (Prog.wp_mono (fun r d' hr => Prog.wp_ret fun d'' hrely => ?_) hwp)
  cases r with
  | error e => exact ⟨fun _ he => (by cases he), fun hs => by cases hr.2 hs⟩
  | ok u =>
    refine ⟨fun _ _ => ?_, fun _ => ⟨_, rfl⟩⟩
    have hw := (hr.1 rfl).stable hrely
    rw [Written, hbuf, take_of_length_le (by rw [h.length_piece d'' hi]),
      take_of_length_le (by rw [hbuf])] at hw
    exact hw

lemma readClosure_wp (h : st.Laid) {index start length : Nat}
    (hi : index < st.torrent.pieceHashes.length)
    (hlen : start + length ≤ st.torrent.pieceSize index) {c : Bytes} (hc : st.piece d index = c)
    (ha : smooth → Allocated st.segments d) :
    (st.readClosure index start length).wp
      (reading st.segments (st.torrent.pieceStart index) (st.torrent.pieceSize index) smooth)
      (fun r _ => (∀ bs, r = .ok bs →
          bs = if st.cacheCapacity > 0 then c else window c start length) ∧
        (smooth → ∃ bs, r = .ok bs)) d := by
  have htiles := h.wellFormed.mapPieceToFiles_tiles h.files hi
  have hlen_c := h.length_piece d hi
  rw [hc] at hlen_c
  have hopen := opens st.torrent st.files
  unfold readClosure
  split
  · rw [h.wellFormed.calculatePieceSize_eq hi]
    have hwp := readMapped_wp 0 hopen le_rfl (st.torrent.mapPieceToFiles index) 0 d htiles
      (Holds.mk hc ha)
    rw [Nat.zero_min, Nat.sub_zero, Nat.sub_zero, window, take_zero, window, drop_zero,
      take_of_length_le (by rw [hlen_c])] at hwp
    exact hwp
  · have hwp := readMapped_wp start hopen hlen (st.torrent.mapPieceToFiles index) 0 d htiles
      (Holds.mk hc ha)
    rw [Nat.zero_min, Nat.zero_sub, Nat.add_sub_cancel_left, window, take_zero] at hwp
    exact hwp

end Laid

/-! ## The two polls of a call -/

def InRange (t : Torrent) : BlockCall → Prop
  | .writePiece index buf => index < t.pieceHashes.length ∧ buf.length = t.pieceSize index
  | .readBlock index start length =>
    index < t.pieceHashes.length ∧ 0 < length ∧ start + length ≤ t.pieceSize index

lemma flat_outOfRange {t : Torrent} {c : BlockCall} (hc : ¬ InRange t c) (a bs : Bytes) :
    (FlatArray.call t a c).1 ≠ .ok bs := by
  unfold FlatArray.call
  split
  · split
    · simp
    · split
      · simp
      · rename_i hi hlen
        exact absurd ⟨by omega, not_not.1 hlen⟩ hc
  · split
    · simp
    · split
      · simp
      · rename_i hi hlen
        exact absurd ⟨by omega, by omega, by omega⟩ hc

lemma start_outOfRange (h : st.Laid) {c : BlockCall} (hc : ¬ InRange st.torrent c) (a : Bytes) :
    st.start c = some (st, .ready (FlatArray.call st.torrent a c).1) ∧
      (FlatArray.call st.torrent a c).2 = a := by
  cases c with
  | writePiece index buf =>
    by_cases hi : index ≥ st.torrent.pieceHashes.length
    · simp only [start, writePiece, FlatArray.call, if_pos hi, and_self]
    · have hlen : buf.length ≠ st.torrent.pieceSize index := fun he => hc ⟨by omega, he⟩
      have hsize := h.wellFormed.calculatePieceSize_eq (Nat.lt_of_not_le hi)
      simp only [start, writePiece, FlatArray.call, if_neg hi, hsize, if_pos hlen, and_self]
  | readBlock index start length =>
    by_cases hi : index ≥ st.torrent.pieceHashes.length
    · simp only [Store.start, readBlock, FlatArray.call, if_pos hi, and_self]
    · have hlen : length = 0 ∨ start + length > st.torrent.pieceSize index := by
        by_contra hno
        exact hc ⟨by omega, by omega, by omega⟩
      have hsize := h.wellFormed.calculatePieceSize_eq (Nat.lt_of_not_le hi)
      simp only [Store.start, readBlock, FlatArray.call, if_neg hi, hsize, if_pos hlen, and_self]

lemma start_write (h : st.Laid) {index : Nat} {buf : Bytes}
    (hc : InRange st.torrent (.writePiece index buf)) :
    ∃ cache, st.start (.writePiece index buf) =
        some ({ st with cache }, .pending (st.writeClosure index buf)) ∧
      ∀ j p, ({ st with cache } : Store).cached j = some p → j ≠ index ∧ st.cached j = some p := by
  refine ⟨if st.cacheCapacity = 0 then st.cache else st.cache.invalidate index, ?_, ?_⟩
  · simp only [start, writePiece, if_neg (Nat.not_le_of_lt hc.1),
      h.wellFormed.calculatePieceSize_eq hc.1, hc.2, ne_eq, not_true_eq_false, if_false]
  · intro j p hj
    unfold cached at hj ⊢
    by_cases hcap : st.cacheCapacity = 0
    · simp only [if_pos hcap, reduceCtorEq] at hj
    · simp only [if_neg hcap] at hj ⊢
      exact PieceCache.invalidate_lookup hj

lemma start_read (h : st.Laid) {index start length : Nat}
    (hc : InRange st.torrent (.readBlock index start length)) :
    ∃ cache, (∀ j, ({ st with cache } : Store).cached j = st.cached j) ∧
      (∀ p, st.cached index = some p → st.start (.readBlock index start length) =
        (sliceOf p start length).map fun out => ({ st with cache }, .ready (.ok out))) ∧
      (st.cached index = none → st.start (.readBlock index start length) =
        some ({ st with cache }, .pending (st.readClosure index start length))) := by
  have hno : ¬ (length = 0 ∨ start + length > st.torrent.pieceSize index) := by
    have := hc.2
    omega
  obtain ⟨hit, cache, hget⟩ : ∃ hit cache,
      (if st.cacheCapacity = 0 then (none, st.cache) else st.cache.get index) = (hit, cache) :=
    ⟨_, _, rfl⟩
  have hfound : st.cached index = hit ∧ cache.map = st.cache.map := by
    obtain ⟨hfst, hsnd⟩ := st.cache.get_eq index
    unfold cached
    split_ifs at hget with hcap
    · cases hget
      exact ⟨if_pos hcap, rfl⟩
    · rw [hget] at hfst hsnd
      exact ⟨(if_neg hcap).trans hfst.symm, hsnd⟩
  refine ⟨cache, fun j => ?_, fun p hp => ?_, fun hnone => ?_⟩
  · simp only [cached, hfound.2]
  · rw [hfound.1] at hp
    simp only [Store.start, readBlock, if_neg (Nat.not_le_of_lt hc.1),
      h.wellFormed.calculatePieceSize_eq hc.1, if_neg hno, hget, hp]
  · rw [hfound.1] at hnone
    simp only [Store.start, readBlock, if_neg (Nat.not_le_of_lt hc.1),
      h.wellFormed.calculatePieceSize_eq hc.1, if_neg hno, hget, hnone]

lemma resume_read (st : Store) (index start length : Nat) (piece : Bytes) :
    ∃ cache, st.resume (.readBlock index start length) (.ok piece) =
        (if st.cacheCapacity > 0 then sliceOf piece start length else some piece).map
          (fun out => ({ st with cache }, .ok out)) ∧
      ∀ j p, ({ st with cache } : Store).cached j = some p →
        (j = index ∧ p = piece ∧ st.cacheCapacity > 0) ∨ st.cached j = some p := by
  by_cases hcap : st.cacheCapacity > 0
  · refine ⟨st.cache.put index piece, by simp only [resume, if_pos hcap], fun j p hj => ?_⟩
    simp only [cached, if_neg (Nat.ne_of_gt hcap)] at hj ⊢
    rcases PieceCache.put_lookup hj with ⟨hji, hp⟩ | hold
    · exact .inl ⟨hji, hp, hcap⟩
    · exact .inr hold
  · refine ⟨st.cache, by simp only [resume, if_neg hcap, map_some], fun j p hj => ?_⟩
    exact .inr hj

/-! ## Sequences of calls -/

lemma sliceOf_eq {bs : Bytes} {start length : Nat} (h : start + length ≤ bs.length) :
    sliceOf bs start length = some (window bs start length) := if_pos h

lemma piece_eq_of_sameOutside {i j : Nat} (hne : j ≠ i)
    (h : SameOutside st.segments (st.torrent.pieceStart i) (st.torrent.pieceSize i) d d') :
    st.piece d' j = st.piece d j := by
  rcases Nat.lt_or_gt_of_ne hne with hlt | hgt
  · exact (window_congr_take h.1 (pieceStop_le_of_lt st.torrent hlt)).symm
  · exact (window_congr_drop h.2.1 (pieceStop_le_of_lt st.torrent hgt)).symm

lemma array_eq_splice {index : Nat} {buf : Bytes}
    (hout : SameOutside st.segments (st.torrent.pieceStart index) (st.torrent.pieceSize index) d d')
    (hlen : buf.length = st.torrent.pieceSize index) (hbuf : st.piece d' index = buf) :
    st.array d' = splice (st.array d) (st.torrent.pieceStart index) buf := by
  have hsplit := take_window_drop (st.array d') (st.torrent.pieceStart index)
    (st.torrent.pieceSize index)
  rw [← hsplit, splice, hout.1, hlen, hout.2.1]
  exact congrArg (fun w => _ ++ w ++ _) hbuf

structure Answers (st : Store) (d : Contents) (c : BlockCall) (smooth : Prop)
    (r : Except StorageError Bytes) (st' : Store) (d' : Contents) : Prop where
  sound : st'.Sound d'
  torrent : st'.torrent = st.torrent
  files : st'.files = st.files
  grows : d.Grows d'
  step : FlatArray.Step st.torrent (st.array d) c r (st'.array d')
  clean : smooth → FlatArray.Clean r

section Calls

variable {index start length : Nat} {buf : Bytes} {os : Nat → Outcome}

lemma call_ready {c : BlockCall} {r : Except StorageError Bytes}
    (h : st.start c = some (st', .ready r)) : st.call d c os = some (r, st', d) := by
  simp only [call, h]

lemma call_pending (d : Contents) (os : Nat → Outcome) {c : BlockCall} {p : Blocking Bytes}
    (h : st.start c = some (st', .pending p)) :
    st.call d c os = (st'.resume c (p.run Contents.perform os d).1).map fun (st, r) =>
      (r, st, (p.run Contents.perform os d).2) := by
  simp only [call, h]

lemma flat_read_inRange {t : Torrent} (hc : InRange t (.readBlock index start length)) (a : Bytes) :
    FlatArray.call t a (.readBlock index start length) =
      (.ok (window a (t.pieceStart index + start) length), a) := by
  have hno : ¬ (length = 0 ∨ start + length > t.pieceSize index) := by
    have := hc.2
    omega
  rw [FlatArray.call, if_neg (Nat.not_le_of_lt hc.1), if_neg hno]

lemma flat_write_inRange {t : Torrent} (hc : InRange t (.writePiece index buf)) (a : Bytes) :
    FlatArray.call t a (.writePiece index buf) = (.ok [], splice a (t.pieceStart index) buf) := by
  rw [FlatArray.call, if_neg (Nat.not_le_of_lt hc.1), if_neg (not_not.2 hc.2)]

lemma answers_block (h : st.Sound d) (hc : InRange st.torrent (.readBlock index start length))
    {cache : PieceCache} (hcache : ∀ j p, ({ st with cache } : Store).cached j = some p →
      (j = index ∧ p = st.piece d index) ∨ st.cached j = some p) :
    Answers st d (.readBlock index start length) smooth
      (.ok (window (st.piece d index) start length)) { st with cache } d where
  sound := by
    refine ⟨⟨h.wellFormed, h.files, h.distinct⟩, fun j p hj => ?_⟩
    rcases hcache j p hj with ⟨rfl, rfl⟩ | hold
    · rfl
    · exact h.cached j p hold
  torrent := rfl
  files := rfl
  grows _ := le_rfl
  step := by
    have hflat := flat_read_inRange hc (st.array d)
    rw [← window_window (l := st.array d) hc.2.2] at hflat
    have hstep := FlatArray.Step.exact (t := st.torrent) (a := st.array d)
      (.readBlock index start length)
    rwa [hflat] at hstep
  clean _ _ := nofun

lemma call_read (h : st.Sound d) (hc : InRange st.torrent (.readBlock index start length))
    (hos : smooth → ∀ n, (os n).Moves) (ha : smooth → Allocated st.segments d) :
    ∃ r st' d', st.call d (.readBlock index start length) os = some (r, st', d') ∧
      Answers st d (.readBlock index start length) smooth r st' d' := by
  obtain ⟨cache, hsame, hhit, hmiss⟩ := start_read h.toLaid hc
  have hslice : sliceOf (st.piece d index) start length =
      some (window (st.piece d index) start length) :=
    sliceOf_eq (by rw [h.length_piece d hc.1]; exact hc.2.2)
  cases hget : st.cached index with
  | some p =>
    obtain rfl := h.cached index p hget
    have hstart := hhit _ hget
    rw [hslice] at hstart
    exact ⟨_, _, _, call_ready hstart, answers_block h hc fun j p hj => .inr (hsame j ▸ hj)⟩
  | none =>
    obtain ⟨hpost, hd⟩ := Prog.run_wp (G := fun d d' => d = d') (fun _ => rfl) (fun {_ _ _} hg hg'
      => Eq.trans hg hg') (fun n hs => hos hs n) (h.readClosure_wp hc.1 hc.2.2 rfl ha)
    have hcall := call_pending d os (hmiss hget)
    simp only [setting] at hpost hd
    rw [← hd] at hcall
    cases hrun : ((st.readClosure index start length).run Contents.perform os d).1 with
    | error msg =>
      rw [hrun] at hcall hpost
      refine ⟨_, _, _, hcall, ⟨⟨h.wellFormed, h.files, h.distinct⟩, fun j p hj =>
        h.cached j p (hsame j ▸ hj)⟩, rfl, rfl, fun _ => le_rfl, .readFailed _ _ _ _,
        fun hs => ?_⟩
      obtain ⟨bs, hbs⟩ := hpost.2 hs
      cases hbs
    | ok piece =>
      have hpiece := hpost.1 piece hrun
      obtain ⟨cache', hres, hcache⟩ := resume_read { st with cache } index start length piece
      have hout : (if st.cacheCapacity > 0 then sliceOf piece start length else some piece) =
          some (window (st.piece d index) start length) := by
        split_ifs with hcap
        · rw [hpiece, if_pos hcap, hslice]
        · rw [hpiece, if_neg hcap]
      rw [hrun, hres] at hcall
      simp only [hout, map_some] at hcall
      refine ⟨_, _, _, hcall, answers_block h hc fun j p hj => ?_⟩
      rcases hcache j p hj with ⟨hji, hp, hcap⟩ | hold
      · exact .inl ⟨hji, by rw [hp, hpiece, if_pos hcap]⟩
      · exact .inr (hsame j ▸ hold)

lemma call_write (h : st.Sound d) (hc : InRange st.torrent (.writePiece index buf))
    (hos : smooth → ∀ n, (os n).Moves) :
    ∃ r st' d', st.call d (.writePiece index buf) os = some (r, st', d') ∧
      Answers st d (.writePiece index buf) smooth r st' d' := by
  obtain ⟨cache, hstart, hcache⟩ := start_write h.toLaid hc
  obtain ⟨hpost, hout⟩ := Prog.run_wp (G := SameOutside st.segments (st.torrent.pieceStart index)
    (st.torrent.pieceSize index)) (fun _ => ⟨rfl, rfl, fun _ => le_rfl⟩) (fun {_ _ _} hg hg' =>
    SameOutside.trans hg hg') (fun n hs => hos hs n) (h.writeClosure_wp hc.1 hc.2 smooth d)
  have hcall := call_pending d os hstart
  simp only [setting] at hpost hout
  generalize (st.writeClosure index buf).run Contents.perform os d = res at hcall hpost hout
  obtain ⟨r, d'⟩ := res
  -- the piece is not in the cache any more, and the others have not changed
  have hsound : ({ st with cache } : Store).Sound d' := by
    refine ⟨⟨h.wellFormed, h.files, h.distinct⟩, fun j p hj => ?_⟩
    obtain ⟨hne, hold⟩ := hcache j p hj
    exact (h.cached j p hold).trans (piece_eq_of_sameOutside hne hout).symm
  cases r with
  | error msg =>
    refine ⟨_, _, _, hcall, hsound, rfl, rfl, hout.2.2,
      .writeFailed _ _ _ _ hc.1 hout.1 hout.2.1, fun hs => ?_⟩
    obtain ⟨bs, hbs⟩ := hpost.2 hs
    cases hbs
  | ok bs =>
    have harray := array_eq_splice hout hc.2 (hpost.1 bs rfl)
    refine ⟨_, _, _, hcall, hsound, rfl, rfl, hout.2.2, ?_, fun _ _ he => by cases he⟩
    have hstep := FlatArray.Step.exact (t := st.torrent) (a := st.array d) (.writePiece index buf)
    rw [flat_write_inRange hc, ← harray] at hstep
    exact hstep

lemma call_answers (h : st.Sound d) (c : BlockCall) (os : Nat → Outcome)
    (hos : smooth → ∀ n, (os n).Moves) (ha : smooth → Allocated st.segments d) :
    ∃ r st' d', st.call d c os = some (r, st', d') ∧ Answers st d c smooth r st' d' := by
  by_cases hc : InRange st.torrent c
  · cases c with
    | writePiece index buf => exact call_write h hc hos
    | readBlock index start length => exact call_read h hc hos ha
  · obtain ⟨hstart, hsame⟩ := start_outOfRange h.toLaid hc (st.array d)
    refine ⟨_, _, _, call_ready hstart, h, rfl, rfl, fun _ => le_rfl, ?_, fun _ => ?_⟩
    · have hstep := FlatArray.Step.exact (t := st.torrent) (a := st.array d) c
      rwa [hsame] at hstep
    · exact FlatArray.call_clean _ _ _

lemma calls_answer (smooth : Prop) : ∀ (cs : List (BlockCall × (Nat → Outcome))) {st : Store} {d : Contents},
    st.Sound d → (smooth → ∀ x ∈ cs, ∀ n, (x.2 n).Moves) → (smooth → Allocated st.segments d) →
    ∃ rs st' d', st.calls d cs = some (rs, st', d') ∧
      FlatArray.Steps st.torrent (st.array d) (cs.map Prod.fst) rs (st.array d') ∧
      (smooth → ∀ r ∈ rs, FlatArray.Clean r)
  | [], st, d, _, _, _ => ⟨[], st, d, rfl, .nil _, nofun⟩
  | (c, os) :: cs, st, d, h, hos, ha => by
    obtain ⟨r, st₁, d₁, hcall, hans⟩ := call_answers h c os (fun hs => hos hs _ mem_cons_self) ha
    have hsegs : st₁.segments = st.segments := by rw [segments, hans.torrent, hans.files]
    have harray : ∀ d, st₁.array d = st.array d := fun d => by rw [array, hsegs]
    obtain ⟨rs, st', d', hcalls, hsteps, hclean⟩ := calls_answer smooth cs hans.sound (fun hs x hx
      => hos hs x (mem_cons_of_mem _ hx)) (fun hs => hsegs ▸ (ha hs).grows hans.grows)
    have hstep := hans.step
    rw [harray] at hstep
    rw [hans.torrent, harray, harray] at hsteps
    refine ⟨r :: rs, st', d', by simp only [calls, hcall, hcalls, map_some],
      .cons hstep hsteps, fun hs => forall_mem_cons.2 ⟨hans.clean hs, hclean hs⟩⟩

end Calls

lemma openWith_sound {t : Torrent} (ht : t.WellFormed) {files : List Nat}
    (hf : files.length = t.files.length) (hnd : files.Nodup) (capacity : Nat) (d : Contents) :
    (openWith t files capacity).Sound d := by
  refine ⟨⟨ht, hf, hnd⟩, fun index p hp => ?_⟩
  unfold cached at hp
  split at hp
  · cases hp
  · cases hp

/-- However its reads and writes go, a storage with any cache capacity answers every sequence of
calls as one flat array of the torrent's length does, apart from I/O errors. If there are none then
the results and the array depend on the calls alone, and there are none if every read and write
moves some bytes and the files are as long as the torrent says. -/
theorem openWith_flat (t : Torrent) (ht : t.WellFormed) (files : List Nat)
    (hf : files.length = t.files.length) (hnd : files.Nodup) (capacity : Nat) (d : Contents)
    (cs : List (BlockCall × (Nat → Outcome))) :
    (arrayOf (t.segments files) d).length = t.length.toNat ∧
    ∃ rs st' d', (openWith t files capacity).calls d cs = some (rs, st', d') ∧
      FlatArray.Steps t (arrayOf (t.segments files) d) (cs.map Prod.fst) rs
        (arrayOf (t.segments files) d') ∧
      ((∀ r ∈ rs, FlatArray.Clean r) → (rs, arrayOf (t.segments files) d') =
        FlatArray.calls t (arrayOf (t.segments files) d) (cs.map Prod.fst)) ∧
      ((∀ x ∈ cs, ∀ n, (x.2 n).Moves) → Allocated (t.segments files) d →
        ∀ r ∈ rs, FlatArray.Clean r) := by
  have hsound := openWith_sound ht hf hnd capacity d
  refine ⟨hsound.length_array d, ?_⟩
  obtain ⟨rs, st', d', hcalls, hsteps, hclean⟩ := calls_answer ((∀ x ∈ cs, ∀ n, (x.2 n).Moves) ∧
    Allocated (t.segments files) d) cs hsound (fun hs => hs.1) (fun hs => hs.2)
  exact ⟨rs, st', d', hcalls, hsteps, hsteps.clean, fun hm ha => hclean ⟨hm, ha⟩⟩

def twoFiles : Torrent :=
  { infoHash := 0, pieceHashes := [0, 0], pieceLength := 2, length := 3,
    files := [⟨[ascii "a"], 1, 0⟩, ⟨[ascii "b"], 2, 1⟩], name := ascii "t", isPrivate := false }

lemma twoFiles_wellFormed : twoFiles.WellFormed :=
  ⟨by decide, by decide, by decide, by decide, by decide, by decide⟩

/-- A piece that is written and read back, one byte at a time. -/
theorem openWith_flat_two :
    ∃ st' d', (openWith twoFiles [0, 1] 1).calls (fun _ => [0, 0])
      [(.writePiece 0 [7, 8], fun _ => .transfer 1), (.readBlock 0 1 1, fun _ => .transfer 1)] =
        some ([.ok [], .ok [8]], st', d') := by
  obtain ⟨-, rs, st', d', hcalls, -, hflat, hclean⟩ := openWith_flat twoFiles twoFiles_wellFormed
    [0, 1] rfl (by decide) 1 (fun _ => [0, 0])
    [(.writePiece 0 [7, 8], fun _ => .transfer 1), (.readBlock 0 1 1, fun _ => .transfer 1)]
  obtain rfl : rs = [.ok [], .ok [8]] :=
    congrArg Prod.fst (hflat (hclean (by simp [Outcome.Moves]) (by decide)))
  exact ⟨st', d', hcalls⟩

end Store

end BitRev
