import BitRev.Pieces.Tasks

/-!
# The chunks of a piece

A piece is requested in blocks of 16 KiB, and is complete when its chunks, sorted by where they
start, run on without a gap or an overlap. `set_chuncks` itself looks at nothing but the start of a
chunk.

`pieceChunksCover_of_grid`: chunks that are all blocks of the piece cover it once they are all there.
-/

namespace BitRev

open TorrentDownloadedState PieceWorkState Pipeline List Option
open Prod hiding map
open Bool hiding not_or true_and

/-! ## Blocks of a piece -/

section Blocks

variable {index length : Nat} {b b' : BlockRequest}

lemma mem_blocksOf_iff : b ∈ blocksOf index length ↔
    ∃ k, k * blockSize < length ∧
      b = ⟨index, k * blockSize, min blockSize (length - k * blockSize)⟩ := by
  simp only [blocksOf, List.mem_map, mem_range]
  refine exists_congr fun k => and_congr ?_ eq_comm
  have hpos : 0 < blockSize := by decide
  rw [Nat.lt_iff_add_one_le, Nat.le_div_iff_mul_le hpos, add_mul, one_mul]
  omega

lemma exists_mem_blocksOf (index : Nat) (h : 0 < length) : ∃ b, b ∈ blocksOf index length :=
  ⟨_, mem_blocksOf_iff.2 ⟨0, by omega, rfl⟩⟩

lemma blocksOf_ext (h : b ∈ blocksOf index length) (h' : b' ∈ blocksOf index length)
    (hs : b.start = b'.start) : b = b' := by
  obtain ⟨k, -, rfl⟩ := mem_blocksOf_iff.1 h
  obtain ⟨k', -, rfl⟩ := mem_blocksOf_iff.1 h'
  simp only at hs
  rw [hs]

/-- Different blocks do not overlap. -/
lemma blocksOf_disjoint (h : b ∈ blocksOf index length) (h' : b' ∈ blocksOf index length)
    (hne : b.start ≠ b'.start) :
    b.start + b.length ≤ b'.start ∨ b'.start + b'.length ≤ b.start := by
  obtain ⟨k, -, rfl⟩ := mem_blocksOf_iff.1 h
  obtain ⟨k', -, rfl⟩ := mem_blocksOf_iff.1 h'
  simp only at hne ⊢
  rcases lt_trichotomy k k' with hlt | rfl | hlt
  · have := Nat.mul_le_mul_right blockSize (Nat.succ_le_of_lt hlt)
    rw [Nat.succ_mul] at this
    omega
  · exact absurd rfl hne
  · have := Nat.mul_le_mul_right blockSize (Nat.succ_le_of_lt hlt)
    rw [Nat.succ_mul] at this
    omega

lemma mem_blocksOf_single (hpos : 0 < length) (hle : length ≤ blockSize) :
    (⟨index, 0, length⟩ : BlockRequest) ∈ blocksOf index length :=
  mem_blocksOf_iff.2 ⟨0, by omega, by simp [min_eq_right hle]⟩

end Blocks

/-! ## When the chunks cover the piece -/

instance : IsTrans (Nat × Nat) spanLe :=
  ⟨fun a b c hab hbc => by
    unfold spanLe at *
    omega⟩

instance : Std.Total spanLe :=
  ⟨fun a b => by
    unfold spanLe
    omega⟩

instance : Std.Antisymm spanLe :=
  ⟨fun a b hab hba => by
    unfold spanLe at *
    exact Prod.ext (by omega) (by omega)⟩

/-- Where the blocks of a piece lie. -/
def gridSpans (length : Nat) : List (Nat × Nat) :=
  (blocksOf 0 length).map fun b => (b.start, b.length)

lemma gridSpans_eq (length : Nat) :
    gridSpans length = (List.range ((length + blockSize - 1) / blockSize)).map fun k =>
      (k * blockSize, min blockSize (length - k * blockSize)) := by
  rw [gridSpans, blocksOf, List.map_map]
  rfl

lemma gridSpans_pairwise (length : Nat) : (gridSpans length).Pairwise fun a b => a.1 < b.1 := by
  rw [gridSpans_eq, pairwise_map]
  refine pairwise_lt_range.imp fun hlt => ?_
  exact Nat.mul_lt_mul_of_pos_right hlt (by decide)

/-- The first `m` blocks reach up to the `m`-th multiple of the block size, or to the end. -/
lemma piecesCover_grid {length : Nat} (h : length < 2 ^ 32) (d m : Nat)
    (hm : m + d = (length + blockSize - 1) / blockSize) :
    piecesCover length (min (m * blockSize) length) ((List.range' m d).map fun k =>
      (k * blockSize, min blockSize (length - k * blockSize))) := by
  have hpos : 0 < blockSize := by decide
  induction d generalizing m with
  | zero =>
    have hge : length ≤ m * blockSize := by
      have := Nat.lt_div_mul_add hpos (a := length + blockSize - 1)
      rw [← hm, add_zero] at this
      omega
    simp [piecesCover, min_eq_right hge]
  | succ d ih =>
    have hlt : m * blockSize < length := by
      have : (m + 1) * blockSize ≤ length + blockSize - 1 :=
        (Nat.le_div_iff_mul_le hpos).1 (by omega)
      rw [add_mul, one_mul] at this
      omega
    have hnext : satAddU32 (min (m * blockSize) length) (min blockSize (length - m * blockSize)) =
        min ((m + 1) * blockSize) length := by
      rw [satAddU32, add_mul, one_mul]
      omega
    rw [range'_succ, map_cons, piecesCover, if_neg (by omega), hnext]
    exact ih (m + 1) (by omega)

lemma piecesCover_gridSpans {length : Nat} (h : length < 2 ^ 32) :
    piecesCover length 0 (gridSpans length) := by
  have := piecesCover_grid h _ 0 (zero_add _)
  rwa [zero_mul, Nat.zero_min, ← range_eq_range', ← gridSpans_eq] at this

/-- The chunks of piece `i` are blocks of it, each at most once. -/
structure PieceWorkState.Gridded (i : Nat) (pw : PieceWorkState) : Prop where
  block : ∀ c ∈ pw.chuncks, (⟨i, c.start, c.length⟩ : BlockRequest) ∈
    blocksOf i pw.pieceWork.length
  once : (pw.chuncks.map (·.start)).Nodup

namespace PieceWorkState.Gridded

variable {i : Nat} {pw : PieceWorkState}

lemma disjoint (h : pw.Gridded i) : pw.chuncks.Pairwise fun c c' =>
    c.start + c.length ≤ c'.start ∨ c'.start + c'.length ≤ c.start := by
  have hne : pw.chuncks.Pairwise fun c c' => c.start ≠ c'.start := pairwise_map.1 h.once
  refine hne.imp_of_mem fun hc hc' hne => ?_
  exact blocksOf_disjoint (h.block _ hc) (h.block _ hc') hne

lemma pieceChunksCover (h : pw.Gridded i) (hlen : pw.pieceWork.length < 2 ^ 32)
    (hall : ∀ b ∈ blocksOf i pw.pieceWork.length, ∃ c ∈ pw.chuncks, c.start = b.start) :
    pw.pieceChunksCover := by
  have hmem : ∀ {x : Nat × Nat}, x ∈ gridSpans pw.pieceWork.length ↔
      (⟨i, x.1, x.2⟩ : BlockRequest) ∈ blocksOf i pw.pieceWork.length := by
    intro x
    simp only [gridSpans, List.mem_map, mem_blocksOf_iff]
    constructor
    · rintro ⟨_, ⟨k, hk, rfl⟩, rfl⟩
      exact ⟨k, hk, rfl⟩
    · rintro ⟨k, hk, heq⟩
      refine ⟨_, ⟨k, hk, rfl⟩, ?_⟩
      simp only [BlockRequest.mk.injEq] at heq
      exact Prod.ext heq.2.1.symm heq.2.2.symm
  have hperm : (pw.chuncks.map fun c => (c.start, c.length)).Perm
      (gridSpans pw.pieceWork.length) := by
    have hnodup : (pw.chuncks.map fun c => (c.start, c.length)).Nodup := by
      refine List.Nodup.of_map fst ?_
      rw [List.map_map]
      exact h.once
    have hgrid : (gridSpans pw.pieceWork.length).Nodup :=
      (gridSpans_pairwise _).imp fun hlt heq => absurd (congrArg fst heq) (ne_of_lt hlt)
    refine (perm_ext_iff_of_nodup hnodup hgrid).2 fun x => ?_
    rw [hmem, List.mem_map]
    constructor
    · rintro ⟨c, hc, rfl⟩
      exact h.block c hc
    · intro hx
      obtain ⟨c, hc, hs⟩ := hall _ hx
      have heq := blocksOf_ext (h.block c hc) hx hs
      simp only [BlockRequest.mk.injEq, true_and] at heq
      exact ⟨c, hc, Prod.ext heq.1 heq.2⟩
  have hsorted : (pw.chuncks.map fun c => (c.start, c.length)).insertionSort spanLe =
      gridSpans pw.pieceWork.length := by
    refine List.Perm.eq_of_pairwise' (pairwise_insertionSort spanLe _) ?_
      ((perm_insertionSort spanLe _).trans hperm)
    exact (gridSpans_pairwise _).imp fun hlt => .inl hlt
  rw [PieceWorkState.pieceChunksCover, hsorted]
  exact piecesCover_gridSpans hlen

end PieceWorkState.Gridded

/-! ## What the operations do to the piece they are about -/

/-- `set_chuncks` for the piece itself. -/
def PieceWorkState.store (pw : PieceWorkState) (c : Chunk) : PieceWorkState :=
  if pw.chuncks.any (·.start = c.start) then pw else { pw with chuncks := pw.chuncks ++ [c] }

namespace PieceWorkState

variable (pw : PieceWorkState) (c : Chunk)

@[simp] lemma store_pieceWork : (pw.store c).pieceWork = pw.pieceWork := by
  unfold store
  split <;> rfl

@[simp] lemma store_downloaded : (pw.store c).downloaded = pw.downloaded := by
  unfold store
  split <;> rfl

@[simp] lemma store_reserved : (pw.store c).reserved = pw.reserved := by
  unfold store
  split <;> rfl

lemma subset_store : pw.chuncks ⊆ (pw.store c).chuncks := by
  unfold store
  split
  · exact List.Subset.refl _
  · exact subset_append_left ..

/-- There is a chunk where the stored one starts, if it was not there before. -/
lemma exists_mem_store : ∃ c' ∈ (pw.store c).chuncks, c'.start = c.start := by
  unfold store
  split_ifs with hany
  · simpa using hany
  · exact ⟨c, mem_append_right _ mem_cons_self, rfl⟩

variable {pw} {c}

lemma Gridded.store {i : Nat} (h : pw.Gridded i)
    (hc : (⟨i, c.start, c.length⟩ : BlockRequest) ∈ blocksOf i pw.pieceWork.length) :
    (pw.store c).Gridded i := by
  unfold PieceWorkState.store
  split_ifs with hany
  · exact h
  · refine ⟨forall_mem_append.2 ⟨h.block, forall_mem_singleton.2 hc⟩, ?_⟩
    · rw [map_append, map_singleton, nodup_append]
      refine ⟨h.once, nodup_singleton _, fun a ha b hb heq => hany ?_⟩
      obtain ⟨c', hc', rfl⟩ := List.mem_map.1 ha
      rw [List.any_eq_true]
      exact ⟨c', hc', by simpa [mem_singleton.1 hb] using heq⟩

end PieceWorkState

/-- `set_downloaded_if_all_chunks` for the piece itself. -/
def PieceWorkState.complete (pw : PieceWorkState) : PieceWorkState :=
  { pw with downloaded := pw.downloaded || pw.pieceChunksCover }

/-- `remove_downloaded` for the piece itself. -/
def PieceWorkState.reset (pw : PieceWorkState) : PieceWorkState :=
  { pw with chuncks := [], writeClaimed := false, downloaded := false }

namespace TorrentDownloadedState

variable {t t' : TorrentDownloadedState} {index : Nat}

lemma modify_eq_self {l : List PieceWorkState} {f : PieceWorkState → PieceWorkState}
    (h : ∀ pw ∈ l[index]?, f pw = pw) : l.modify index f = l := by
  refine ext_getElem? fun j => ?_
  rw [getElem?_modify]
  by_cases hij : index = j
  · subst hij
    cases hl : l[index]? with
    | none => rfl
    | some pw => simp [h pw hl]
  · cases l[j]? <;> simp [hij]

lemma Indexed.findIdx? (h : t.Indexed) (index : Nat) :
    t.pieces.findIdx? (·.pieceWork.index = index) =
      if index < t.pieces.length then some index else none := by
  have hat : ∀ (j : Nat) (hj : j < t.pieces.length), (t.pieces[j]).pieceWork.index = j := by
    intro j hj
    exact h j t.pieces[j].flags (by rw [flagsAt, getElem?_eq_getElem hj]; rfl)
  split_ifs with hlt
  · rw [findIdx?_eq_some_iff_getElem]
    refine ⟨hlt, by simp [hat index hlt], fun j hj => ?_⟩
    simp [hat j (hj.trans hlt), ne_of_lt hj]
  · rw [findIdx?_eq_none_iff]
    intro pw hpw
    obtain ⟨j, hj, rfl⟩ := mem_iff_getElem.1 hpw
    simp only [hat j hj, decide_eq_false_iff_not]
    omega

lemma setChuncks_pieces (h : t.Indexed) (index start : Nat) (buf : Bytes) (peer : PeerAddr) :
    (t.setChuncks index start buf peer).1.pieces =
      t.pieces.modify index (·.store ⟨index, start, buf.length % 2 ^ 32, buf, peer⟩) := by
  unfold setChuncks
  rw [h.findIdx? index]
  split
  · rename_i hnone
    have hge : t.pieces.length ≤ index := by
      by_contra hlt
      rw [if_pos (Nat.lt_of_not_le hlt)] at hnone
      cases hnone
    exact (modify_eq_self fun pw hpw => by
      rw [getElem?_eq_none hge] at hpw
      cases hpw).symm
  · rename_i i hi
    obtain ⟨-, rfl⟩ : index < t.pieces.length ∧ index = i := by simpa using hi
    cases hpw : t.pieces[index]? with
    | none =>
      rw [if_neg (by simp)]
      rw [modify_eq_self (by simp [hpw]), modify_eq_self (by simp [hpw])]
    | some pw =>
      by_cases hany : pw.chuncks.any (·.start = start)
      · rw [if_pos (by simpa using hany)]
        refine (modify_eq_self fun pw' hpw' => ?_).symm
        rw [hpw] at hpw'
        cases hpw'
        rw [store, if_pos hany]
      · rw [if_neg (by simpa using hany)]
        refine ext_getElem? fun j => ?_
        simp only [getElem?_modify]
        by_cases hij : index = j
        · subst hij
          simp only [hpw, Option.map_eq_map, map_some, if_true, store, if_neg hany]
        · cases t.pieces[j]? <;> simp [hij]

lemma setDownloadedIfAllChunks_pieces (t : TorrentDownloadedState) (index : Nat) :
    (t.setDownloadedIfAllChunks index).1.pieces = t.pieces.modify index complete := by
  unfold setDownloadedIfAllChunks
  split
  · rename_i hnone
    exact (modify_eq_self (by simp [hnone])).symm
  · rename_i pw hpw
    have hat : ∀ pw' ∈ t.pieces[index]?, pw' = pw := fun pw' hpw' =>
      some.inj (hpw'.symm.trans hpw)
    split_ifs with hskip
    · refine (modify_eq_self fun pw' hpw' => ?_).symm
      obtain rfl := hat pw' hpw'
      have hsame : (pw'.downloaded || pw'.pieceChunksCover) = pw'.downloaded := by
        cases hd : pw'.downloaded <;> simp_all
      rw [complete, hsame]
    · refine ext_getElem? fun j => ?_
      simp only [getElem?_modify]
      by_cases hij : index = j
      · subst hij
        simp only [or_eq_true, not_eq_true', not_or, not_eq_false] at hskip
        simp [hpw, complete, hskip.2]
      · cases t.pieces[j]? <;> simp [hij]

/-- The table after a chunk of a piece is received. -/
lemma stored_pieces (h : t.Indexed) (index start : Nat) (buf : Bytes) (peer : PeerAddr) (j : Nat) :
    ((t.setChuncks index start buf peer).1.setDownloadedIfAllChunks index).1.pieces[j]? =
      t.pieces[j]?.map fun pw =>
        if index = j then (pw.store ⟨index, start, buf.length % 2 ^ 32, buf, peer⟩).complete
        else pw := by
  rw [setDownloadedIfAllChunks_pieces, setChuncks_pieces h, modify_modify_eq, getElem?_modify]
  rfl

lemma setDownloadedIfAllChunks_snd (t : TorrentDownloadedState) (index : Nat) :
    (t.setDownloadedIfAllChunks index).2 =
      t.pieces[index]?.filter fun pw => !pw.downloaded && pw.pieceChunksCover := by
  unfold setDownloadedIfAllChunks
  split
  · rename_i hnone
    rw [hnone]
    rfl
  · rename_i pw hpw
    rw [hpw]
    split_ifs with hskip
    · simp only [or_eq_true, not_eq_true'] at hskip
      rcases hskip with hskip | hskip <;> simp [Option.filter, hskip]
    · simp only [or_eq_true, not_eq_true', not_or, not_eq_true, not_eq_false] at hskip
      simp [Option.filter, hskip.1, hskip.2]

lemma removeDownloaded_pieces (h : t.Indexed) (index : Nat) :
    (t.removeDownloaded index).pieces = t.pieces.modify index reset := by
  refine ext_getElem? fun j => ?_
  rw [removeDownloaded, getElem?_map, getElem?_modify]
  cases hpw : t.pieces[j]? with
  | none => rfl
  | some pw =>
    have hj : pw.pieceWork.index = j := h j pw.flags (by rw [flagsAt, hpw]; rfl)
    simp only [map_some, Option.map_eq_map, hj, eq_comm (a := j)]
    split <;> rfl

end TorrentDownloadedState

/-! ## The chunks of every piece -/

/-- Each piece has had its chunks cleared, is owned, or has the chunks it had. -/
def PieceWorkState.Settled (pw pw' : PieceWorkState) : Prop :=
  pw'.chuncks = [] ∨ pw'.downloaded ∨
    (pw'.chuncks = pw.chuncks ∧ (pw.downloaded → pw'.downloaded))

namespace TorrentDownloadedState

/-- What holds of the pieces that are not downloaded, where `received` are the blocks received since
the chunks of their pieces were last cleared. -/
structure Gridded (t : TorrentDownloadedState) (received : List BlockRequest) : Prop where
  indexed : t.Indexed
  short : ∀ w ∈ t.works, w.length < 2 ^ 32
  chunks : ∀ (i : Nat) (pw : PieceWorkState), t.pieces[i]? = some pw → pw.downloaded = false →
    pw.Gridded i
  stored : ∀ r ∈ received, ∀ pw : PieceWorkState, t.pieces[r.index]? = some pw →
    pw.downloaded = false → ∃ c ∈ pw.chuncks, c.start = r.start
  missing : ∀ (i : Nat) (pw : PieceWorkState), t.pieces[i]? = some pw → pw.downloaded = false →
    0 < pw.pieceWork.length →
    ∃ b ∈ blocksOf i pw.pieceWork.length, ∀ c ∈ pw.chuncks, c.start ≠ b.start

variable {t t' : TorrentDownloadedState} {received received' : List BlockRequest} {index : Nat}

variable (h : t.Gridded received)
include h

lemma Gridded.mono (hsub : received' ⊆ received) : t.Gridded received' :=
  ⟨h.indexed, h.short, h.chunks, fun r hr => h.stored r (hsub hr), h.missing⟩

lemma Gridded.of_pieces (hp : t'.pieces = t.pieces) : t'.Gridded received where
  indexed := h.indexed.of_works (congrArg (map _) hp)
  short := by
    rw [works, hp]
    exact h.short
  chunks := hp ▸ h.chunks
  stored := hp ▸ h.stored
  missing := hp ▸ h.missing

lemma Gridded.settles (hs : ∀ j : Nat, Option.Rel PieceWorkState.Settled t.pieces[j]? t'.pieces[j]?)
    (hw : t'.works = t.works) : t'.Gridded (received.filter (PieceTasks.uncleared t')) := by
  have hwork : ∀ {j : Nat} {pw pw' : PieceWorkState}, t.pieces[j]? = some pw → t'.pieces[j]? = some pw' →
      pw'.pieceWork = pw.pieceWork := by
    intro j pw pw' hpw hpw'
    have hj := congrArg (·[j]?) hw
    simp only [works, getElem?_map, hpw, hpw', map_some, some.injEq] at hj
    exact hj
  have hold : ∀ {j : Nat} {pw' : PieceWorkState}, t'.pieces[j]? = some pw' → ∃ pw, t.pieces[j]? = some pw ∧
      pw'.pieceWork = pw.pieceWork ∧ pw.Settled pw' := by
    intro j pw' hpw'
    obtain ⟨pw, hpw, hj⟩ := Growth.of_some (hpw' ▸ hs j)
    exact ⟨pw, hpw, hwork hpw hpw', hj⟩
  refine ⟨h.indexed.of_works hw, hw ▸ h.short, fun i pw' hpw' hd => ?_,
    fun r hr pw' hpw' hd => ?_, fun i pw' hpw' hd hpos => ?_⟩
  · obtain ⟨pw, hpw, hwk, hnil | hd' | ⟨hsame, hdown⟩⟩ := hold hpw'
    · exact ⟨by simp [hnil], by simp [hnil]⟩
    · simp [hd] at hd'
    · have hg := h.chunks i pw hpw (eq_false_of_not_eq_true fun hd' => by
        simp [hdown hd'] at hd)
      exact ⟨by rw [hsame, hwk]; exact hg.block, by rw [hsame]; exact hg.once⟩
  · obtain ⟨hr, hun⟩ := mem_filter.1 hr
    obtain ⟨pw, hpw, -, hnil | hd' | ⟨hsame, hdown⟩⟩ := hold hpw'
    · simp [PieceTasks.uncleared, hpw', hnil] at hun
    · simp [hd] at hd'
    · rw [hsame]
      exact h.stored r hr pw hpw (eq_false_of_not_eq_true fun hd' => by
        simp [hdown hd'] at hd)
  · obtain ⟨pw, hpw, hwk, hnil | hd' | ⟨hsame, hdown⟩⟩ := hold hpw'
    · obtain ⟨b, hb⟩ := exists_mem_blocksOf i hpos
      exact ⟨b, hb, by simp [hnil]⟩
    · simp [hd] at hd'
    · rw [hwk, hsame]
      exact h.missing i pw hpw (eq_false_of_not_eq_true fun hd' => by
        simp [hdown hd'] at hd) (hwk ▸ hpos)

lemma Gridded.rewrites (hr : Rewrites t t') (hw : t'.works = t.works) :
    t'.Gridded (received.filter (PieceTasks.uncleared t')) := by
  refine h.settles (fun j => ?_) hw
  have hj := hr j
  generalize t.pieces[j]? = x at hj ⊢
  generalize t'.pieces[j]? = y at hj ⊢
  cases hj with
  | none => exact .none
  | some hj => exact .some (hj.chuncks.imp id .inr)

lemma Gridded.stores (start : Nat) (buf : Bytes) (peer : PeerAddr)
    (hblock : ∀ pw : PieceWorkState, t.pieces[index]? = some pw →
      (⟨index, start, buf.length % 2 ^ 32⟩ : BlockRequest) ∈ blocksOf index pw.pieceWork.length) :
    ((t.setChuncks index start buf peer).1.setDownloadedIfAllChunks index).1.Gridded
      (received ++ [⟨index, start, buf.length % 2 ^ 32⟩]) := by
  have hw : ((t.setChuncks index start buf peer).1.setDownloadedIfAllChunks index).1.works =
      t.works := by simp
  have hpieces := (t.setChuncks index start buf peer).1.setDownloadedIfAllChunks_pieces index
  rw [setChuncks_pieces h.indexed] at hpieces
  generalize ((t.setChuncks index start buf peer).1.setDownloadedIfAllChunks index).1 = t' at *
  -- the piece of the block, if it is not complete now
  have hself : ∀ pw' : PieceWorkState, t'.pieces[index]? = some pw' → pw'.downloaded = false →
      ∃ pw, t.pieces[index]? = some pw ∧ pw.downloaded = false ∧ pw'.Gridded index ∧
        (∃ c ∈ pw'.chuncks, c.start = start) ∧ pw.chuncks ⊆ pw'.chuncks ∧
        pw'.pieceChunksCover = false := by
    intro pw' hpw' hd
    rw [hpieces, getElem?_modify, getElem?_modify] at hpw'
    cases hpw : t.pieces[index]? with
    | none => simp [hpw] at hpw'
    | some pw =>
      simp only [hpw, Option.map_eq_map, map_some, if_true, some.injEq] at hpw'
      subst hpw'
      simp only [complete, store_downloaded, or_eq_false_iff] at hd
      have hg := (h.chunks index pw hpw hd.1).store
        (c := ⟨index, start, buf.length % 2 ^ 32, buf, peer⟩) (hblock pw hpw)
      exact ⟨pw, rfl, hd.1, ⟨hg.block, hg.once⟩, exists_mem_store pw _, subset_store pw _, hd.2⟩
  have hother : ∀ j : Nat, index ≠ j → t'.pieces[j]? = t.pieces[j]? := by
    intro j hij
    rw [hpieces, getElem?_modify, getElem?_modify]
    cases t.pieces[j]? <;> simp [hij]
  refine ⟨h.indexed.of_works hw, hw ▸ h.short, fun i pw' hpw' hd => ?_,
    fun r hr pw' hpw' hd => ?_, fun i pw' hpw' hd hpos => ?_⟩
  · rcases eq_or_ne index i with rfl | hij
    · obtain ⟨-, -, -, hg, -⟩ := hself pw' hpw' hd
      exact hg
    · exact h.chunks i pw' (hother i hij ▸ hpw') hd
  · rcases eq_or_ne index r.index with hidx | hij
    · obtain ⟨pw, hpw, hd', -, hstart, hsub, -⟩ := hself pw' (hidx ▸ hpw') hd
      rcases mem_append.1 hr with hr | hr
      · obtain ⟨c, hc, hs⟩ := h.stored r hr pw (hidx ▸ hpw) hd'
        exact ⟨c, hsub hc, hs⟩
      · rw [mem_singleton.1 hr]
        exact hstart
    · rcases mem_append.1 hr with hr | hr
      · exact h.stored r hr pw' (hother r.index hij ▸ hpw') hd
      · rw [mem_singleton.1 hr] at hij
        exact absurd rfl hij
  · rcases eq_or_ne index i with rfl | hij
    · obtain ⟨-, -, -, hg, -, -, hcover⟩ := hself pw' hpw' hd
      have hshort : pw'.pieceWork.length < 2 ^ 32 :=
        h.short _ (hw ▸ mem_map_of_mem (mem_of_getElem? hpw'))
      by_contra hall
      push Not at hall
      rw [hg.pieceChunksCover hshort hall] at hcover
      cases hcover
    · exact h.missing i pw' (hother i hij ▸ hpw') hd hpos

end TorrentDownloadedState

namespace PieceTasks

/-- Every `Piece` message is a block of its piece, and the answer of a web seed is for a piece it
still has reserved, or of one block. -/
def OnGrid (s : PieceTasks) : TaskAct → Prop
  | .pipeline (.piece _ index start data) => ∀ pw ∈ s.table.pieces[index]?,
    (⟨index, start, data.length % 2 ^ 32⟩ : BlockRequest) ∈ blocksOf index pw.pieceWork.length
  | .webSeed peer index _ => ∀ pw ∈ s.table.pieces[index]?,
    pw.reserved = some peer ∨ pw.pieceWork.length ≤ blockSize
  | _ => True

instance (s : PieceTasks) : DecidablePred s.OnGrid := by
  rintro (⟨a⟩ | _)
  case pipeline => rcases a <;> unfold OnGrid <;> infer_instance
  all_goals unfold OnGrid; infer_instance

end PieceTasks

namespace Pipeline

variable (sha1 : Bytes → Digest) (p : Pipeline) (peer : PeerAddr) (index : Nat) (buf : Bytes)

lemma onPiece_table (start : Nat) : (p.onPiece peer index start buf).table =
    ((p.receive peer index start buf).setDownloadedIfAllChunks index).1 := by
  unfold onPiece
  split <;> (rename_i heq; rw [heq])

/-- The table with the data of a web seed stored as a chunk. -/
def fetched : TorrentDownloadedState × Option PieceWorkState :=
  (p.table.setChuncks index 0 buf peer).1.setDownloadedIfAllChunks index

lemma onWebSeed_cases :
    ((p.fetched peer index buf).2 = none ∧ (p.onWebSeed sha1 peer index buf).table =
      (p.fetched peer index buf).1.releaseReservation index peer) ∨
    ((p.fetched peer index buf).2.isSome ∧
      ((p.onWebSeed sha1 peer index buf).table =
          (((p.fetched peer index buf).1.claimWrite index).1.clearPieceChunks
            index).releaseReservation index peer ∨
        (p.onWebSeed sha1 peer index buf).table =
          ((p.fetched peer index buf).1.claimWrite index).1.releaseReservation index peer ∨
        (p.onWebSeed sha1 peer index buf).table =
          ((p.fetched peer index buf).1.removeDownloaded index).releasePiece index)) := by
  unfold onWebSeed
  rw [← fetched]
  generalize p.fetched peer index buf = x
  obtain ⟨t, full⟩ := x
  cases full with
  | none => exact .inl ⟨rfl, rfl⟩
  | some pw =>
    refine .inr ⟨rfl, ?_⟩
    dsimp only
    split
    · split
      · exact .inl rfl
      · exact .inr (.inl rfl)
    · exact .inr (.inr rfl)

/-- What follows stores nothing more. -/
lemma onWebSeed_rewrites :
    Rewrites (p.fetched peer index buf).1 (p.onWebSeed sha1 peer index buf).table := by
  obtain ⟨-, ht⟩ | ⟨-, ht | ht | ht⟩ := p.onWebSeed_cases sha1 peer index buf
  · rw [ht]
    exact releaseReservation_rewrites _ _ _
  · rw [ht]
    exact ((claimWrite_rewrites _ _).trans (clearPieceChunks_rewrites _ _)).trans
      (releaseReservation_rewrites _ _ _)
  · rw [ht]
    exact (claimWrite_rewrites _ _).trans (releaseReservation_rewrites _ _ _)
  · rw [ht]
    exact (removeDownloaded_rewrites _ _).trans (releasePiece_rewrites _ _)

lemma fetched_works : (p.fetched peer index buf).1.works = p.table.works := by
  simp [fetched]

variable {p} {peer} {index}

variable (hi : p.table.Indexed)
include hi

lemma fetched_pieces (j : Nat) :
    (p.fetched peer index buf).1.pieces[j]? = p.table.pieces[j]?.map fun pw =>
      if index = j then (pw.store ⟨index, 0, buf.length % 2 ^ 32, buf, peer⟩).complete
      else pw :=
  stored_pieces hi index 0 buf peer j

/-- A piece that was completed is owned. -/
lemma fetched_downloaded (hfull : (p.fetched peer index buf).2.isSome) {pw : PieceWorkState}
    (hpw : (p.fetched peer index buf).1.pieces[index]? = some pw) : pw.downloaded := by
  rw [fetched_pieces buf hi] at hpw
  obtain ⟨pw₀, hpw₀, rfl⟩ := map_eq_some_iff.1 hpw
  rw [fetched, setDownloadedIfAllChunks_snd, setChuncks_pieces hi, getElem?_modify, hpw₀] at hfull
  simp only [Option.map_eq_map, map_some, if_true, Option.filter, isSome_ite, and_eq_true] at hfull
  simp only [if_true, complete, hfull.2, Bool.or_true]

lemma onWebSeed_owned (hres : ∀ pw ∈ p.table.pieces[index]?, pw.reserved = some peer)
    {pw : PieceWorkState} (hpw : (p.onWebSeed sha1 peer index buf).table.pieces[index]? = some pw) :
    pw.chuncks = [] ∨ pw.downloaded := by
  obtain ⟨-, ht⟩ | ⟨hfull, -⟩ := p.onWebSeed_cases sha1 peer index buf
  · rw [ht, releaseReservation, getElem?_modify, fetched_pieces buf hi] at hpw
    cases hpw₀ : p.table.pieces[index]? with
    | none => simp [hpw₀] at hpw
    | some pw₀ =>
      simp only [hpw₀, Option.map_eq_map, map_some, if_true, some.injEq] at hpw
      subst hpw
      rw [if_pos (by simp [complete, hres pw₀ hpw₀])]
      dsimp only
      split_ifs with hd
      · exact .inr hd
      · exact .inl rfl
  · have hrw := p.onWebSeed_rewrites sha1 peer index buf index
    rw [hpw] at hrw
    cases hpw₁ : (p.fetched peer index buf).1.pieces[index]? with
    | none =>
      rw [hpw₁] at hrw
      cases hrw
    | some pw₁ =>
      rw [hpw₁] at hrw
      cases hrw with
      | some hrw =>
        exact hrw.chuncks.imp id fun h => h.2 (fetched_downloaded buf hi hfull hpw₁)

lemma onWebSeed_settled (hres : ∀ pw ∈ p.table.pieces[index]?, pw.reserved = some peer) (j : Nat) :
    Option.Rel PieceWorkState.Settled p.table.pieces[j]?
      (p.onWebSeed sha1 peer index buf).table.pieces[j]? := by
  have hrw := p.onWebSeed_rewrites sha1 peer index buf j
  rw [fetched_pieces buf hi] at hrw
  cases hpw' : (p.onWebSeed sha1 peer index buf).table.pieces[j]? with
  | none =>
    rw [hpw'] at hrw
    cases hpw : p.table.pieces[j]? with
    | none => exact .none
    | some pw =>
      rw [hpw] at hrw
      cases hrw
  | some pw' =>
    rw [hpw'] at hrw
    cases hpw : p.table.pieces[j]? with
    | none =>
      rw [hpw] at hrw
      cases hrw
    | some pw =>
      rw [hpw] at hrw
      refine .some ?_
      rcases eq_or_ne index j with rfl | hij
      · exact (onWebSeed_owned sha1 buf hi hres hpw').imp id .inl
      · rw [map_some, if_neg hij] at hrw
        cases hrw with
        | some hrw => exact hrw.chuncks.imp id .inr

end Pipeline

namespace PieceTasks

variable {sha1 : Bytes → Digest} {s s' : PieceTasks}

/-- The chunks of the pieces that are not downloaded are blocks of theirs. -/
def Gridded (s : PieceTasks) : Prop := s.table.Gridded s.received

lemma Gridded.setTable (h : s.Gridded) {t : TorrentDownloadedState} (hr : Rewrites s.table t) :
    (s.setTable t).Gridded :=
  TorrentDownloadedState.Gridded.rewrites h hr hr.works

lemma Gridded.piece (h : s.Gridded) {peer : PeerAddr} {index start : Nat} {data : Bytes}
    (hok : s.OnGrid (.pipeline (.piece peer index start data))) :
    ((s.note (.piece peer index start data)).setPipeline
      (s.pipeline.onPiece peer index start data)).Gridded := by
  have hnoted : (s.table.noteBlockReceived
      ⟨index, start, data.length % 2 ^ 32⟩ peer).1.Gridded s.received :=
    TorrentDownloadedState.Gridded.of_pieces h rfl
  refine TorrentDownloadedState.Gridded.mono ?_ (filter_subset_self _)
  show (s.pipeline.onPiece peer index start data).table.Gridded _
  rw [onPiece_table]
  exact hnoted.stores start data peer hok

lemma Gridded.webSeed (h : s.Gridded) {peer : PeerAddr} {index : Nat} {buf : Bytes}
    (hok : s.OnGrid (.webSeed peer index buf))
    (hlen : s.table.pieces[index]?.map (·.pieceWork.length) = some buf.length) (hne : buf ≠ []) :
    (s.setPipeline (s.pipeline.onWebSeed sha1 peer index buf)).Gridded := by
  obtain ⟨pw, hpw, hlength⟩ := map_eq_some_iff.1 hlen
  rcases hok pw hpw with hres | hsingle
  · refine TorrentDownloadedState.Gridded.settles h ?_ ?_
    · exact onWebSeed_settled sha1 buf h.indexed fun pw' hpw' => by
        rwa [some.inj (hpw'.symm.trans hpw)]
    · exact (s.pipeline.onWebSeed_rewrites sha1 peer index buf).works.trans
        (s.pipeline.fetched_works peer index buf)
  · -- the whole piece is its only block
    have hshort := h.short _ (mem_map_of_mem (mem_of_getElem? hpw))
    rw [hlength] at hshort hsingle
    have hblock : ∀ pw' : PieceWorkState, s.table.pieces[index]? = some pw' →
        (⟨index, 0, buf.length % 2 ^ 32⟩ : BlockRequest) ∈
          blocksOf index pw'.pieceWork.length := by
      intro pw' hpw'
      rw [some.inj (hpw'.symm.trans hpw), hlength, Nat.mod_eq_of_lt hshort]
      exact mem_blocksOf_single (length_pos_of_ne_nil hne) hsingle
    have hst := (TorrentDownloadedState.Gridded.stores h 0 buf peer hblock).mono
      (subset_append_left ..)
    exact hst.rewrites (s.pipeline.onWebSeed_rewrites sha1 peer index buf)
      (s.pipeline.onWebSeed_rewrites sha1 peer index buf).works

lemma Gridded.step (h : s.Gridded) {a : TaskAct} (hok : s.OnGrid a)
    (hs : s.step sha1 a = some s') : s'.Gridded := by
  cases a with
  | pipeline a =>
    obtain ⟨p', hp, rfl⟩ := map_eq_some_iff.1 hs
    cases a with
    | piece peer index start data =>
      cases hp
      exact h.piece hok
    | verified n joined | recv | wrote ok | snapshot =>
      have hr := step_rewrites (by simp) hp
      exact TorrentDownloadedState.Gridded.rewrites h hr hr.works
  | reserve index peer =>
    obtain ⟨t, ht, rfl⟩ := map_eq_some_iff.1 hs
    exact h.setTable (tryReservePiece_rewrites ht)
  | release index peer =>
    cases hs
    exact h.setTable (releaseReservation_rewrites _ _ _)
  | releasePeer peer clearChunks =>
    cases hs
    exact h.setTable (releasePeerReservations_rewrites _ _ _)
  | releasePiece index =>
    cases hs
    exact h.setTable (releasePiece_rewrites _ _)
  | webSeed peer index buf =>
    simp only [PieceTasks.step, ite_none_right_eq_some, some.injEq] at hs
    obtain ⟨⟨hlen, hne⟩, rfl⟩ := hs
    exact h.webSeed hok hlen hne
  | priorities prios =>
    cases hs
    exact h.setTable (applyFilePriorities_rewrites _ _)
  | recheck =>
    cases hs
    exact h.setTable (clearAllDownloaded_rewrites _)
  | recheckOk index =>
    cases hs
    exact h.setTable (markDownloaded_rewrites _ _)

lemma piecesOfWork_fresh {t : Torrent} {pw : PieceWorkState} (h : pw ∈ t.piecesOfWork) :
    pw.chuncks = [] ∧ pw.pieceWork.length < 2 ^ 32 := by
  obtain ⟨i, hi⟩ := getElem?_of_mem h
  rw [Torrent.piecesOfWork, getElem?_mapIdx, map_eq_some_iff] at hi
  obtain ⟨hash, -, rfl⟩ := hi
  exact ⟨rfl, Nat.mod_lt _ (by decide)⟩

lemma new_gridded (t : Torrent) : (TorrentDownloadedState.new t.piecesOfWork).Gridded [] := by
  have hpw : ∀ {i : Nat} {pw : PieceWorkState}, t.piecesOfWork[i]? = some pw →
      pw.chuncks = [] ∧ pw.pieceWork.length < 2 ^ 32 :=
    fun h => piecesOfWork_fresh (mem_of_getElem? h)
  refine ⟨fun _ _ hf => (Torrent.piecesOfWork_flagsAt hf).1, fun w hw => ?_, fun i pw h _ => ?_,
    nofun, fun i pw h _ hpos => ?_⟩
  · obtain ⟨pw, hmem, rfl⟩ := List.mem_map.1 hw
    obtain ⟨i, hi⟩ := getElem?_of_mem hmem
    exact (hpw hi).2
  · exact ⟨by simp [(hpw h).1], by simp [(hpw h).1]⟩
  · obtain ⟨b, hb⟩ := exists_mem_blocksOf i hpos
    exact ⟨b, hb, by simp [(hpw h).1]⟩

lemma start_gridded (t : Torrent) (sequential : Bool) (priorities : List FilePriority)
    (bits : List Bool) : (start t sequential priorities bits).Gridded := by
  have hr := (installContent_rewrites (.new t.piecesOfWork) t sequential priorities).trans
    (applyBitfield_rewrites _ bits)
  exact (new_gridded t).rewrites hr hr.works

/-- The chunks of a piece that is not downloaded are blocks of it, inside it and disjoint, and a
piece all of whose blocks have been received since its chunks were last cleared is downloaded. -/
structure OnBlocks (s : PieceTasks) : Prop where
  chunks : ∀ (i : Nat) (pw : PieceWorkState), s.table.pieces[i]? = some pw → pw.downloaded = false →
    (∀ c ∈ pw.chuncks,
      (⟨i, c.start, c.length⟩ : BlockRequest) ∈ blocksOf i pw.pieceWork.length ∧
        c.start + c.length ≤ pw.pieceWork.length) ∧
    pw.chuncks.Pairwise fun c c' =>
      c.start + c.length ≤ c'.start ∨ c'.start + c'.length ≤ c.start
  received : ∀ (i : Nat) (pw : PieceWorkState), s.table.pieces[i]? = some pw →
    0 < pw.pieceWork.length → (∀ b ∈ blocksOf i pw.pieceWork.length, b ∈ s.received) →
    pw.downloaded

/-- If every `Piece` message is a block of its piece, chunks are blocks in every state reached. -/
theorem chunks_on_grid {t : Torrent} {sequential : Bool} {priorities : List FilePriority}
    {bits : List Bool} {as : List TaskAct} {s : PieceTasks}
    (h : Run (step sha1) OnGrid (start t sequential priorities bits) as s) : s.OnBlocks := by
  have hg : s.Gridded := h.inv (fun hi hok hs => hi.step hok hs) (start_gridded ..)
  refine ⟨fun i pw hpw hd => ?_, fun i pw hpw hpos hall => ?_⟩
  · have hgrid := hg.chunks i pw hpw hd
    exact ⟨fun c hc => ⟨hgrid.block c hc, (mem_blocksOf (hgrid.block c hc)).2.2.2⟩, hgrid.disjoint⟩
  · by_contra hnot
    have hd : pw.downloaded = false := eq_false_of_not_eq_true hnot
    obtain ⟨b, hb, hmiss⟩ := hg.missing i pw hpw hd hpos
    have hidx := (mem_blocksOf hb).1
    obtain ⟨c, hc, hs⟩ := hg.stored b (hall b hb) pw (hidx ▸ hpw) hd
    exact hmiss c hc hs

def oneBlock : List TaskAct := [.pipeline (.piece peerA 0 0 (ascii "a"))]

theorem chunks_on_grid_one :
    ∃ s pw, Run (step sha1A) OnGrid (start pieceA false [] []) oneBlock s ∧
      s.table.pieces[0]? = some pw ∧ pw.downloaded :=
  have hrun := Run.of_isSome
  have hpw := eq_some_get
  ⟨_, _, hrun, hpw, (chunks_on_grid hrun).2 0 _ hpw (by decide +kernel) (by decide +kernel)⟩

def twoBytes : Torrent :=
  { pieceA with pieceLength := 2, length := 2, files := [⟨[ascii "a"], 2, 0⟩] }

def strayByte : List TaskAct :=
  [.pipeline (.piece peerA 0 1 (ascii "b")),
    .pipeline (.piece peerA 0 0 (ascii "aa"))]

/-- A stray byte keeps the piece from being completed by its block. -/
theorem chunks_on_grid_stray :
    ¬ ∀ (sha1 : Bytes → Digest) (t : Torrent) (sequential : Bool) (priorities : List FilePriority)
      (bits : List Bool) (as : List TaskAct) (s : PieceTasks),
      Run (step sha1) anyStep (start t sequential priorities bits) as s → s.OnBlocks := by
  intro h
  have hall := (h sha1A twoBytes false [] [] strayByte _ .of_isSome).2 0 _
    eq_some_get (by decide +kernel) (by decide +kernel)
  exact absurd hall (by decide +kernel)

end PieceTasks

end BitRev
