import BitRev.Pieces.Table

/-!
# Picking pieces and assigning blocks

The part of `TorrentDownloadedState` that the requester tasks of the connections share: a piece is
reserved by the peer that picks it, and a block is assigned to the peers it is requested from
(`block_assignments`), at most `maxBlockRequesters` of them. In endgame, when every piece still
missing is reserved, single blocks are requested from a second peer.

Which of the candidates the picker selects (rarest first, with a random choice) is a parameter of
`pick`. `requestersOf` is what is proved about the assignments: each operation has a lemma that
says what it does to the requesters of every block.
-/

namespace BitRev.TorrentDownloadedState

open List Option

def maxBlockRequesters : Nat := 2
/-- In milliseconds. -/
def endgameRerequestAfter : Nat := 100

/-! ## Reservations -/

section

variable (t : TorrentDownloadedState)

def candidates (peerHas : Nat → Bool) : List Nat :=
  (List.range t.pieces.length).filter fun i =>
    !t.hasPiece i && ((t.pieces[i]?.bind (·.reserved)).isNone && (peerHas i && t.wanted i))

/-- The candidates the selection is made from: unless in sequential mode, those of the highest
priority. -/
def pickFrom (peerHas : Nat → Bool) : List Nat :=
  let candidates := t.candidates peerHas
  if t.sequential then candidates
  else
    let band := (candidates.map t.piecePrio).foldl FilePriority.max .skip
    candidates.filter fun i => t.piecePrio i = band

def tryReservePiece (index : Nat) (peer : PeerAddr) : Option TorrentDownloadedState :=
  match t.pieces[index]? with
  | none => none
  | some pw =>
    if !t.wanted index || pw.downloaded || pw.reserved.isSome then none
    else
      some { t with
        pieces := t.pieces.modify index fun pw => { pw with reserved := some peer } }

/-- The piece `peer` reserves, where the selection is `choice` if that is a candidate. -/
def pick (peer : PeerAddr) (peerHas : Nat → Bool) (choice : Nat) :
    Option (Nat × TorrentDownloadedState) :=
  let found := t.pickFrom peerHas
  let selected := if choice ∈ found then some choice else found.head?
  selected.bind fun index => (t.tryReservePiece index peer).map (index, ·)

def releaseReservation (index : Nat) (peer : PeerAddr) : TorrentDownloadedState :=
  { t with
    pieces := t.pieces.modify index fun pw =>
      if pw.reserved = some peer then
        { pw with reserved := none, chuncks := if pw.downloaded then pw.chuncks else [] }
      else pw }

def releasePeerReservations (peer : PeerAddr) (clearChunks : Bool) : TorrentDownloadedState :=
  { t with
    pieces := t.pieces.map fun pw =>
      if pw.reserved = some peer then
        { pw with
          reserved := none
          chuncks := if clearChunks && !pw.downloaded then [] else pw.chuncks }
      else pw }

def snubRelease (peer : PeerAddr) : TorrentDownloadedState :=
  t.releasePeerReservations peer false

/-! ## Assignments -/

def requestersOf (req : BlockRequest) : List PeerAddr :=
  ((t.blockAssignments.find? (·.1 = req)).map (·.2.requesters)).getD []

def addRequester (req : BlockRequest) (peer : PeerAddr) : TorrentDownloadedState :=
  { t with
    blockAssignments := t.blockAssignments.map fun (r, e) =>
      if r = req then (r, { e with requesters := e.requesters ++ [peer] }) else (r, e) }

def assignBlock (req : BlockRequest) (peer : PeerAddr) (now : Nat) :
    TorrentDownloadedState × Bool :=
  match t.blockAssignments.find? (·.1 = req) with
  | some (_, entry) =>
    if peer ∈ entry.requesters then (t, false)
    else if entry.requesters.length ≥ maxBlockRequesters then (t, false)
    else (t.addRequester req peer, true)
  | none =>
    ({ t with blockAssignments := t.blockAssignments ++ [(req, ⟨[peer], now⟩)] }, true)

def unassignPeerBlocks (peer : PeerAddr) : TorrentDownloadedState :=
  { t with
    blockAssignments := (t.blockAssignments.map fun (req, entry) =>
        (req, { entry with requesters := entry.requesters.filter (· ≠ peer) })).filter
      (·.2.requesters ≠ []) }

def removeReserved (peer : PeerAddr) : TorrentDownloadedState :=
  (t.releasePeerReservations peer true).unassignPeerBlocks peer

/-! ## Endgame -/

def missing (pw : PieceWorkState) : Bool :=
  !pw.downloaded && t.wanted pw.pieceWork.index

def inEndgame : Bool :=
  let missing := t.pieces.filter t.missing
  missing.length > 0 && missing.all (·.reserved.isSome)

/-- The blocks nobody was asked for, or not `peer` and too few peers, and long ago. -/
def endgameBlocks (peer : PeerAddr) (peerHas : Nat → Bool) (limit now : Nat) : List BlockRequest :=
  if !t.inEndgame then []
  else
    let pieces := t.pieces.filter fun pw =>
      t.missing pw && (pw.reserved.isSome && peerHas pw.pieceWork.index)
    (pieces.flatMap fun pw =>
      (blocksOf pw.pieceWork.index pw.pieceWork.length).filter fun req =>
        pw.chuncks.all (·.start ≠ req.start) &&
          (t.blockAssignments.find? (·.1 = req)).all fun (_, entry) => peer ∉ entry.requesters &&
            (entry.requesters.length < maxBlockRequesters &&
              entry.firstAt + endgameRerequestAfter ≤ now)).take limit

end

/-! ## What the operations do -/

section

variable {t t' : TorrentDownloadedState} {peer : PeerAddr} {index : Nat}

/-- The pieces differ at most in their chunks and reservations. -/
structure SameFlags (t t' : TorrentDownloadedState) : Prop where
  flags : ∀ j, t'.flagsAt j = t.flagsAt j
  priority : t'.piecePriority = t.piecePriority

lemma SameFlags.refl (t : TorrentDownloadedState) : SameFlags t t := ⟨fun _ => rfl, rfl⟩

section

variable (h : SameFlags t t')
include h

lemma SameFlags.trans {t'' : TorrentDownloadedState} (h' : SameFlags t' t'') : SameFlags t t'' :=
  ⟨fun j => (h'.flags j).trans (h.flags j), h'.priority.trans h.priority⟩

lemma SameFlags.length : t'.pieces.length = t.pieces.length := by
  refine le_antisymm ?_ ?_
  · by_contra hlt
    have hf := h.flags t.pieces.length
    rw [flagsAt, flagsAt, getElem?_eq_none le_rfl, getElem?_eq_getElem (Nat.lt_of_not_le hlt)] at hf
    cases hf
  · by_contra hlt
    have hf := h.flags t'.pieces.length
    rw [flagsAt, flagsAt, getElem?_eq_none le_rfl, getElem?_eq_getElem (Nat.lt_of_not_le hlt)] at hf
    cases hf

lemma SameFlags.wanted (i : Nat) : t'.wanted i = t.wanted i := by
  unfold TorrentDownloadedState.wanted piecePrio
  rw [h.length, h.priority]

lemma SameFlags.hasPiece (i : Nat) : t'.hasPiece i = t.hasPiece i := by
  rw [hasPiece_eq, hasPiece_eq, h.flags]

end

lemma tryReservePiece_sameFlags (h : t.tryReservePiece index peer = some t') :
    SameFlags t t' ∧ t'.blockAssignments = t.blockAssignments := by
  unfold tryReservePiece at h
  split at h
  · cases h
  · split_ifs at h
    cases h
    exact ⟨⟨fun j => flagsAt_modify_id t index j _ fun _ => rfl, rfl⟩, rfl⟩

/-- Who has piece `i` reserved. -/
def reservedAt (t : TorrentDownloadedState) (i : Nat) : Option PeerAddr :=
  t.pieces[i]?.bind (·.reserved)

/-- Reservations and assignments are given up, and none is made. -/
structure Released (t t' : TorrentDownloadedState) : Prop extends SameFlags t t' where
  reserved : ∀ j, (t'.reservedAt j).isSome → (t.reservedAt j).isSome

lemma Released.refl (t : TorrentDownloadedState) : Released t t := ⟨.refl t, fun _ h => h⟩

lemma Released.trans {t'' : TorrentDownloadedState} (h : Released t t')
    (h' : Released t' t'') : Released t t'' :=
  ⟨h.toSameFlags.trans h'.toSameFlags, fun j hj => h.reserved j (h'.reserved j hj)⟩

/-- Endgame is not entered when reservations are given up. -/
lemma Released.inEndgame (h : Released t t') (he : t'.inEndgame) : t.inEndgame := by
  have hat : ∀ {i : Nat} {pw' : PieceWorkState}, t'.pieces[i]? = some pw' →
      ∃ pw, t.pieces[i]? = some pw ∧ t'.missing pw' = t.missing pw := by
    intro i pw' hi
    have hf := h.flags i
    rw [flagsAt, hi] at hf
    obtain ⟨pw, hpw, hfl⟩ := map_eq_some_iff.1 hf.symm
    have hwork : pw.pieceWork = pw'.pieceWork := congrArg PieceFlags.work hfl
    have hdown : pw.downloaded = pw'.downloaded := congrArg PieceFlags.downloaded hfl
    exact ⟨pw, hpw, by rw [missing, missing, h.wanted, hwork, hdown]⟩
  simp only [TorrentDownloadedState.inEndgame, Bool.and_eq_true, decide_eq_true_eq,
    length_pos_iff_exists_mem, List.all_eq_true, mem_filter] at he ⊢
  obtain ⟨⟨pw', hmem, hmiss⟩, hall⟩ := he
  obtain ⟨i, hi⟩ := mem_iff_getElem?.1 hmem
  obtain ⟨pw, hpw, hsame⟩ := hat hi
  refine ⟨⟨pw, mem_of_getElem? hpw, hsame ▸ hmiss⟩, fun qw hq => ?_⟩
  obtain ⟨j, hj⟩ := mem_iff_getElem?.1 hq.1
  have hlt : j < t'.pieces.length := by
    rw [h.length]
    exact (List.getElem?_eq_some_iff.1 hj).1
  obtain ⟨qw₀, hqw₀, hsame⟩ := hat (getElem?_eq_getElem hlt)
  cases hqw₀.symm.trans hj
  have hres := hall _ ⟨getElem_mem hlt, hsame ▸ hq.2⟩
  have hback := h.reserved j (by rw [reservedAt, getElem?_eq_getElem hlt]; exact hres)
  rw [reservedAt, hj] at hback
  exact hback

/-- A reservation that is there after a piece has been changed was there before. -/
lemma released_of_piece {f : PieceWorkState → PieceWorkState}
    (hflags : ∀ pw, (f pw).flags = pw.flags)
    (hres : ∀ pw, (f pw).reserved.isSome → pw.reserved.isSome)
    (hat : ∀ j : Nat, t'.pieces[j]? = t.pieces[j]? ∨ t'.pieces[j]? = t.pieces[j]?.map f)
    (hprio : t'.piecePriority = t.piecePriority) : Released t t' := by
  refine ⟨⟨fun j => ?_, hprio⟩, fun j hj => ?_⟩
  · rcases hat j with he | he
    · rw [flagsAt, flagsAt, he]
    · rw [flagsAt, flagsAt, he, Option.map_map]
      exact congrArg (Option.map · _) (funext hflags)
  · rw [reservedAt] at hj ⊢
    rcases hat j with he | he
    · rwa [he] at hj
    · rw [he] at hj
      cases hp : t.pieces[j]? with
      | none => simp [hp] at hj
      | some pw =>
        rw [hp] at hj
        exact hres pw hj

section

variable (t : TorrentDownloadedState)

lemma releaseReservation_released (index : Nat) (peer : PeerAddr) :
    Released t (t.releaseReservation index peer) := by
  refine released_of_piece (f := fun pw => if pw.reserved = some peer then
      { pw with reserved := none, chuncks := if pw.downloaded then pw.chuncks else [] }
    else pw) (fun pw => ?_) (fun pw hpw => ?_) (fun j => ?_) rfl
  · split <;> rfl
  · split at hpw
    · cases hpw
    · exact hpw
  · rw [releaseReservation, getElem?_modify]
    split
    · exact .inr rfl
    · exact .inl (map_id' ..)

lemma releasePeerReservations_released (peer : PeerAddr) (clear : Bool) :
    Released t (t.releasePeerReservations peer clear) := by
  refine released_of_piece (fun pw => ?_) (fun pw hpw => ?_) (fun j => .inr getElem?_map) rfl
  · split <;> rfl
  · split at hpw
    · cases hpw
    · exact hpw

lemma unassignPeerBlocks_released (peer : PeerAddr) :
    Released t (t.unassignPeerBlocks peer) := ⟨⟨fun _ => rfl, rfl⟩, fun _ h => h⟩

lemma assignBlock_sameFlags (req : BlockRequest) (peer : PeerAddr) (now : Nat) :
    SameFlags t (t.assignBlock req peer now).1 := by
  unfold assignBlock
  split
  · split
    · exact .refl t
    · split
      · exact .refl t
      · exact ⟨fun _ => rfl, rfl⟩
  · exact ⟨fun _ => rfl, rfl⟩

end

lemma pick_spec {peerHas : Nat → Bool} {choice : Nat}
    (h : t.pick peer peerHas choice = some (index, t')) :
    peerHas index ∧ t.hasPiece index = false ∧ t.wanted index ∧
      SameFlags t t' ∧ t'.blockAssignments = t.blockAssignments := by
  unfold pick at h
  obtain ⟨i, hi, hres⟩ := bind_eq_some_iff.1 h
  obtain ⟨t₁, hres, heq⟩ := map_eq_some_iff.1 hres
  cases heq
  have hfound : index ∈ t.pickFrom peerHas := by
    split at hi
    · cases hi
      assumption
    · exact mem_of_head? hi
  have hcand : index ∈ t.candidates peerHas := by
    unfold pickFrom at hfound
    simp only at hfound
    split at hfound
    · exact hfound
    · exact mem_of_mem_filter hfound
  obtain ⟨-, hc⟩ := mem_filter.1 hcand
  simp only [Bool.and_eq_true, Bool.not_eq_true'] at hc
  exact ⟨hc.2.2.1, hc.1, hc.2.2.2, tryReservePiece_sameFlags hres⟩

end

/-! ### Blocks on the grid -/

def OnGrid (t : TorrentDownloadedState) (req : BlockRequest) : Prop :=
  req.start % blockSize = 0 ∧ 0 < req.length ∧
    ∃ f, t.flagsAt req.index = some f ∧ req.start + req.length ≤ f.work.length

lemma SameFlags.onGrid {t t' : TorrentDownloadedState} (h : SameFlags t t') {req : BlockRequest}
    (hg : t.OnGrid req) : t'.OnGrid req := by
  obtain ⟨hs, hl, f, hf, hle⟩ := hg
  exact ⟨hs, hl, f, (h.flags _).trans hf, hle⟩

lemma lt_blocks_iff {k length : Nat} :
    k < (length + blockSize - 1) / blockSize ↔ k * blockSize < length := by
  unfold blockSize
  omega

lemma mem_blocksOf {index length : Nat} {req : BlockRequest} (h : req ∈ blocksOf index length) :
    req.index = index ∧ req.start % blockSize = 0 ∧ 0 < req.length ∧
      req.start + req.length ≤ length := by
  obtain ⟨k, hk, rfl⟩ := mem_map.1 h
  have hmul := lt_blocks_iff.1 (mem_range.1 hk)
  have hpos : 0 < blockSize := by decide
  refine ⟨rfl, Nat.mul_mod_left _ _, ?_, ?_⟩
  · simp only
    omega
  · simp only
    omega

section

variable {t t' : TorrentDownloadedState} {peer : PeerAddr} {index : Nat} {req : BlockRequest}

/-! ### The requesters of a block -/

def Assigned (t : TorrentDownloadedState) : Prop := (t.blockAssignments.map Prod.fst).Nodup

lemma requestersOf_of_mem {entry : BlockAssignment} (h : t.Assigned)
    (hm : (req, entry) ∈ t.blockAssignments) : t.requestersOf req = entry.requesters := by
  obtain ⟨before, after, heq⟩ := mem_iff_append.1 hm
  rw [Assigned, heq, map_append, nodup_append] at h
  -- no entry before this one is for the block
  have hnone : before.find? (·.1 = req) = none := by
    refine find?_eq_none.2 fun x hx he => ?_
    have hx₁ : x.1 = req := by simpa using he
    exact h.2.2 _ (mem_map_of_mem hx) _ mem_cons_self hx₁
  simp [requestersOf, heq, find?_append, hnone]

lemma requestersOf_of_not_mem
    (h : ∀ entry, (req, entry) ∉ t.blockAssignments) : t.requestersOf req = [] := by
  have hnone : t.blockAssignments.find? (·.1 = req) = none := by
    refine find?_eq_none.2 fun x hx he => ?_
    have heq : x.1 = req := by simpa using he
    exact h x.2 (heq ▸ hx)
  rw [requestersOf, hnone]
  rfl

lemma mem_requestersOf {q : PeerAddr} (h : q ∈ t.requestersOf req) :
    ∃ entry, (req, entry) ∈ t.blockAssignments ∧ q ∈ entry.requesters := by
  rw [requestersOf] at h
  cases hf : t.blockAssignments.find? (·.1 = req) with
  | none => simp [hf] at h
  | some x =>
    rw [hf] at h
    have hx : x.1 = req := by simpa using find?_some hf
    exact ⟨x.2, hx ▸ mem_of_find?_eq_some hf, h⟩

/-- The entries of some blocks are dropped. -/
lemma requestersOf_filter (keep : BlockRequest → Bool) (r : BlockRequest) :
    requestersOf { t with blockAssignments := t.blockAssignments.filter fun x => keep x.1 } r =
      if keep r = true then t.requestersOf r else [] := by
  rw [requestersOf, requestersOf, find?_filter]
  split_ifs with hkeep
  · have hsame : (fun x : BlockRequest × BlockAssignment => decide (keep x.1 ∧
        decide (x.1 = r))) = fun x => decide (x.1 = r) := by
      funext x
      by_cases hx : x.1 = r
      · simp [hx, hkeep]
      · simp [hx]
    simp only [hsame]
  · have hnone : t.blockAssignments.find? (fun x => decide (keep x.1 ∧
        decide (x.1 = r))) = none := by
      refine find?_eq_none.2 fun x _ hx => hkeep ?_
      obtain ⟨hk, he⟩ : keep x.1 ∧ x.1 = r := by simpa using hx
      exact he ▸ hk
    simp only [hnone]
    rfl

lemma noteBlockReceived_requestersOf (t : TorrentDownloadedState) (peer : PeerAddr)
    (req r : BlockRequest) :
    (t.noteBlockReceived req peer).1.requestersOf r = if r = req then [] else t.requestersOf r := by
  refine (requestersOf_filter (fun x => decide (x ≠ req)) r).trans ?_
  by_cases hr : r = req <;> simp [hr]

lemma unassignPeerBlocks_assigned (h : t.Assigned) (peer : PeerAddr) :
    (t.unassignPeerBlocks peer).Assigned := by
  refine List.Nodup.sublist (filter_sublist.map _) ?_
  rw [List.map_map]
  exact h

lemma unassignPeerBlocks_requestersOf (h : t.Assigned) (peer : PeerAddr) (r : BlockRequest) :
    (t.unassignPeerBlocks peer).requestersOf r = (t.requestersOf r).filter (· ≠ peer) := by
  by_cases hex : ∃ entry, (r, entry) ∈ t.blockAssignments
  · obtain ⟨entry, hm⟩ := hex
    rw [requestersOf_of_mem h hm]
    by_cases hnil : entry.requesters.filter (· ≠ peer) = []
    · rw [hnil]
      refine requestersOf_of_not_mem fun e he => ?_
      obtain ⟨hmap, hne⟩ := mem_filter.1 he
      obtain ⟨⟨r', e'⟩, hm', heq⟩ := mem_map.1 hmap
      cases heq
      have hsame : e'.requesters = entry.requesters := by
        rw [← requestersOf_of_mem h hm', requestersOf_of_mem h hm]
      simp only [hsame, hnil] at hne
      simp at hne
    · have hkept : (r, { entry with requesters := entry.requesters.filter (· ≠ peer) }) ∈
          (t.unassignPeerBlocks peer).blockAssignments :=
        mem_filter.2 ⟨mem_map.2 ⟨_, hm, rfl⟩, by simpa using hnil⟩
      exact requestersOf_of_mem (unassignPeerBlocks_assigned h peer) hkept
  · have hno : ∀ entry, (r, entry) ∉ t.blockAssignments := fun e he => hex ⟨e, he⟩
    rw [requestersOf_of_not_mem hno]
    refine requestersOf_of_not_mem fun e he => ?_
    obtain ⟨⟨r', e'⟩, hm', heq⟩ := mem_map.1 (mem_of_mem_filter he)
    cases heq
    exact hno _ hm'

lemma addRequester_assigned (h : t.Assigned) (req : BlockRequest) (peer : PeerAddr) :
    (t.addRequester req peer).Assigned := by
  have hkeys : (t.addRequester req peer).blockAssignments.map Prod.fst =
      t.blockAssignments.map Prod.fst := by
    rw [addRequester, List.map_map]
    refine map_congr_left fun x _ => ?_
    simp only [Function.comp_apply]
    split <;> rfl
  rw [Assigned, hkeys]
  exact h

lemma addRequester_requestersOf (h : t.Assigned) {entry : BlockAssignment}
    (hm : (req, entry) ∈ t.blockAssignments) (peer : PeerAddr) (r : BlockRequest) :
    (t.addRequester req peer).requestersOf r =
      if r = req then t.requestersOf req ++ [peer] else t.requestersOf r := by
  have hassigned := addRequester_assigned h req peer
  split
  · rename_i he
    subst he
    have hadded : (r, { entry with requesters := entry.requesters ++ [peer] }) ∈
        (t.addRequester r peer).blockAssignments := mem_map.2 ⟨_, hm, if_pos rfl⟩
    rw [requestersOf_of_mem h hm, requestersOf_of_mem hassigned hadded]
  · rename_i hne
    by_cases hex : ∃ e, (r, e) ∈ t.blockAssignments
    · obtain ⟨e, he⟩ := hex
      have hkept : (r, e) ∈ (t.addRequester req peer).blockAssignments :=
        mem_map.2 ⟨_, he, if_neg hne⟩
      rw [requestersOf_of_mem h he, requestersOf_of_mem hassigned hkept]
    · have hno : ∀ e, (r, e) ∉ t.blockAssignments := fun e he => hex ⟨e, he⟩
      rw [requestersOf_of_not_mem hno]
      refine requestersOf_of_not_mem fun e he => ?_
      obtain ⟨⟨r', e'⟩, hm', heq⟩ := mem_map.1 he
      simp only at heq
      split_ifs at heq with hr'
      · cases heq
        exact hne hr'
      · cases heq
        exact hno _ hm'

lemma newEntry_requestersOf (hno : t.blockAssignments.find? (·.1 = req) = none)
    (entry : BlockAssignment) (r : BlockRequest) :
    requestersOf { t with blockAssignments := t.blockAssignments ++ [(req, entry)] } r =
      if r = req then entry.requesters else t.requestersOf r := by
  simp only [requestersOf, find?_append]
  split_ifs with he
  · rw [he, hno]
    simp
  · cases hr : t.blockAssignments.find? (·.1 = r) with
    | none => simp [Ne.symm he]
    | some x => simp

/-- A block is assigned to a peer that does not have it, as one of at most `maxBlockRequesters`. -/
lemma assignBlock_cases (h : t.Assigned) (req : BlockRequest) (peer : PeerAddr) (now : Nat) :
    t.assignBlock req peer now = (t, false) ∨
    ∃ t', t.assignBlock req peer now = (t', true) ∧ t'.Assigned ∧ peer ∉ t.requestersOf req ∧
      (t.requestersOf req).length < maxBlockRequesters ∧
      ∀ r, t'.requestersOf r = if r = req then t.requestersOf req ++ [peer] else t.requestersOf r := by
  unfold assignBlock
  cases hfind : t.blockAssignments.find? (·.1 = req) with
  | none =>
    have hno : ∀ entry, (req, entry) ∉ t.blockAssignments := fun e he => by
      simpa using find?_eq_none.1 hfind _ he
    have hnil := requestersOf_of_not_mem hno
    refine .inr ⟨_, rfl, ?_, by simp [hnil], by simp [hnil, maxBlockRequesters], fun r => ?_⟩
    · rw [Assigned, map_append, nodup_append]
      refine ⟨h, by simp, fun a ha b hb he => ?_⟩
      obtain ⟨⟨r, e⟩, hm, rfl⟩ := mem_map.1 ha
      rw [map_singleton, mem_singleton] at hb
      simp only at he hb
      exact hno e (by rw [← hb, ← he]; exact hm)
    · rw [newEntry_requestersOf hfind, hnil, nil_append]
  | some x =>
    obtain ⟨r₀, entry⟩ := x
    have hm := mem_of_find?_eq_some hfind
    obtain rfl : r₀ = req := by simpa using find?_some hfind
    have hreq := requestersOf_of_mem h hm
    simp only
    split
    · exact .inl rfl
    · rename_i hnot
      split_ifs with hlen
      · exact .inl rfl
      · exact .inr ⟨_, rfl, addRequester_assigned h _ _, hreq ▸ hnot, hreq ▸ Nat.lt_of_not_le hlen,
          addRequester_requestersOf h hm peer⟩

lemma requestersOf_congr (h : t'.blockAssignments = t.blockAssignments) (r : BlockRequest) :
    t'.requestersOf r = t.requestersOf r := by rw [requestersOf, requestersOf, h]

section

variable (t : TorrentDownloadedState)

lemma setChuncks_assignments (i start : Nat) (buf : Bytes) (peer : PeerAddr) :
    (t.setChuncks i start buf peer).1.blockAssignments = t.blockAssignments := by
  unfold setChuncks
  split
  · rfl
  · split <;> rfl

lemma setDownloadedIfAllChunks_assignments (i : Nat) :
    (t.setDownloadedIfAllChunks i).1.blockAssignments = t.blockAssignments := by
  unfold setDownloadedIfAllChunks
  split
  · rfl
  · split <;> rfl

lemma noteBlockReceived_snd (req : BlockRequest) (peer : PeerAddr) :
    (t.noteBlockReceived req peer).2 = (t.requestersOf req).filter (· ≠ peer) := by
  rw [noteBlockReceived, requestersOf]
  cases t.blockAssignments.find? (·.1 = req) <;> rfl

end

/-- A block is requested from few peers, and from none of them twice. -/
structure Orderly (t : TorrentDownloadedState) : Prop where
  assigned : t.Assigned
  once : ∀ r, (t.requestersOf r).Nodup
  few : ∀ r, (t.requestersOf r).length ≤ maxBlockRequesters

namespace Orderly

variable (h : t.Orderly)
include h

lemma congr (he : t'.blockAssignments = t.blockAssignments) : t'.Orderly where
  assigned := by
    rw [Assigned, he]
    exact h.assigned
  once r := requestersOf_congr he r ▸ h.once r
  few r := requestersOf_congr he r ▸ h.few r

lemma filter (keep : BlockRequest → Bool) :
    Orderly { t with blockAssignments := t.blockAssignments.filter fun x => keep x.1 } where
  assigned := h.assigned.sublist (filter_sublist.map _)
  once r := by
    rw [requestersOf_filter]
    split
    · exact h.once r
    · exact nodup_nil
  few r := by
    rw [requestersOf_filter]
    split
    · exact h.few r
    · exact Nat.zero_le _

lemma unassignPeerBlocks (peer : PeerAddr) : (t.unassignPeerBlocks peer).Orderly where
  assigned := unassignPeerBlocks_assigned h.assigned peer
  once r := by
    rw [unassignPeerBlocks_requestersOf h.assigned]
    exact (h.once r).filter _
  few r := by
    rw [unassignPeerBlocks_requestersOf h.assigned]
    exact (length_filter_le _ _).trans (h.few r)

lemma assignBlock {req : BlockRequest} {now : Nat} (he : t.assignBlock req peer now = (t', true)) :
    t'.Orderly ∧ peer ∉ t.requestersOf req ∧
      ∀ r, t'.requestersOf r = if r = req then t.requestersOf req ++ [peer] else t.requestersOf r := by
  rcases assignBlock_cases h.assigned req peer now with hno | ⟨t₁, heq, ha, hnot, hlen, hreqs⟩
  · cases hno.symm.trans he
  · cases heq.symm.trans he
    refine ⟨⟨ha, fun r => ?_, fun r => ?_⟩, hnot, hreqs⟩
    · rw [hreqs]
      split
      · refine List.Nodup.append (h.once req) (nodup_singleton _) ?_
        exact disjoint_singleton.2 hnot
      · exact h.once r
    · rw [hreqs]
      split
      · rw [length_append, length_singleton]
        exact hlen
      · exact h.few r

end Orderly

/-! ### File priorities -/

/-- `cancels` are for the blocks whose assignments have been dropped since `t`. -/
structure Unwanted (t t' : TorrentDownloadedState) (cancels : List (PeerAddr × BlockRequest)) :
    Prop where
  orderly : t.Orderly → t'.Orderly
  kept : ∀ r, r ∉ cancels.map Prod.snd → t'.requestersOf r = t.requestersOf r
  gone : ∀ r ∈ cancels.map Prod.snd, t'.requestersOf r = []

lemma unwantPiece_unwanted {cancels : List (PeerAddr × BlockRequest)} (h : Unwanted t t' cancels)
    (i : Nat) : Unwanted t (t'.unwantPiece cancels i).1 (t'.unwantPiece cancels i).2 := by
  unfold unwantPiece
  split
  · exact h
  · rename_i pw _
    split
    · exact h
    · simp only
      -- the cancels that are added are all for the piece, whose entries are dropped
      generalize hmore : (t'.blockAssignments.filter (·.1.index = i)).flatMap
        (fun x => x.2.requesters.map (·, x.1)) = more
      generalize hrest : ((pw.reserved.toList.flatMap fun peer =>
        (blocksOf i pw.pieceWork.length).map (peer, ·)).filter (· ∉ cancels ++ more)) = rest
      have hreq : ∀ r, requestersOf { t' with
          blockAssignments := t'.blockAssignments.filter (·.1.index ≠ i)
          pieces := t'.pieces.modify i fun pw =>
            { pw with reserved := none, chuncks := [], writeClaimed := false } } r =
          if r.index ≠ i then t'.requestersOf r else [] := by
        intro r
        refine (requestersOf_filter (fun x => decide (x.index ≠ i)) r).trans ?_
        by_cases hr : r.index = i <;> simp [hr]
      have hmore' : ∀ r ∈ more.map Prod.snd, r.index = i := by
        intro r hr
        subst hmore
        obtain ⟨⟨q, r'⟩, hm, rfl⟩ := mem_map.1 hr
        obtain ⟨x, hx, hm⟩ := mem_flatMap.1 hm
        obtain ⟨q', -, heq⟩ := mem_map.1 hm
        cases heq
        simpa using (mem_filter.1 hx).2
      have hrest' : ∀ r ∈ rest.map Prod.snd, r.index = i := by
        intro r hr
        subst hrest
        obtain ⟨⟨q, r'⟩, hm, rfl⟩ := mem_map.1 hr
        obtain ⟨q', -, hm⟩ := mem_flatMap.1 (mem_of_mem_filter hm)
        obtain ⟨r'', hr'', heq⟩ := mem_map.1 hm
        cases heq
        exact (mem_blocksOf hr'').1
      refine ⟨fun ho => ?_, fun r hr => ?_, fun r hr => ?_⟩
      · exact ((h.orderly ho).filter fun x => decide (x.index ≠ i)).congr rfl
      · simp only [map_append, mem_append, not_or] at hr
        rw [hreq, h.kept r hr.1.1]
        split
        · rfl
        · rename_i hi
          -- an entry of the piece that names a peer would be among the cancels
          have hnil : t'.requestersOf r = [] := by
            refine eq_nil_iff_forall_not_mem.2 fun q hq => hr.1.2 ?_
            subst hmore
            obtain ⟨e, he, hqe⟩ := mem_requestersOf hq
            refine mem_map.2 ⟨(q, r), mem_flatMap.2 ⟨(r, e), ?_, ?_⟩, rfl⟩
            · exact mem_filter.2 ⟨he, by simpa using hi⟩
            · exact mem_map_of_mem hqe
          rw [← h.kept r hr.1.1, hnil]
      · rw [hreq]
        split_ifs with hi
        · simp only [map_append, mem_append] at hr
          rcases hr with (hr | hr) | hr
          · exact h.gone r hr
          · exact absurd (hmore' r hr) hi
          · exact absurd (hrest' r hr) hi
        · rfl

lemma applyFilePriorities_unwanted (t : TorrentDownloadedState) (prios : List FilePriority) :
    Unwanted t (t.applyFilePriorities prios).1 (t.applyFilePriorities prios).2 := by
  refine applyFilePriorities_inv t prios (fun _ => ⟨fun ho => ?_, fun r _ => ?_, nofun⟩)
    fun _ _ i h => unwantPiece_unwanted h i
  · exact ho.congr rfl
  · exact requestersOf_congr rfl r

/-- What turns of `unwant_skipped` leave of a table: fewer assignments, the same pieces. -/
structure Sweeps (t t' : TorrentDownloadedState) : Prop where
  entries : ∀ x ∈ t'.blockAssignments, x ∈ t.blockAssignments
  downloaded : ∀ i : Nat, t'.pieces[i]?.map PieceWorkState.downloaded =
    t.pieces[i]?.map PieceWorkState.downloaded
  wanted : ∀ i, t'.wanted i = t.wanted i

lemma Sweeps.refl (t : TorrentDownloadedState) : Sweeps t t :=
  ⟨fun _ h => h, fun _ => rfl, fun _ => rfl⟩

lemma Sweeps.trans {t₁ : TorrentDownloadedState} (h : Sweeps t t₁) (h' : Sweeps t₁ t') :
    Sweeps t t' where
  entries x hx := h.entries x (h'.entries x hx)
  downloaded i := (h'.downloaded i).trans (h.downloaded i)
  wanted i := (h'.wanted i).trans (h.wanted i)

lemma unwantPiece_sweeps (t : TorrentDownloadedState) (cancels : List (PeerAddr × BlockRequest))
    (i : Nat) : Sweeps t (t.unwantPiece cancels i).1 := by
  unfold unwantPiece
  split
  · exact .refl t
  · split
    · exact .refl t
    · refine ⟨fun x hx => mem_of_mem_filter hx, fun j => ?_, fun j => ?_⟩
      · rw [getElem?_modify, Option.map_eq_map, Option.map_map]
        refine congrArg (Option.map · _) (funext fun pw => ?_)
        rw [Function.comp_apply]
        split <;> rfl
      · unfold TorrentDownloadedState.wanted
        rw [length_modify]
        rfl

/-- The loop of `unwant_skipped` over the pieces `l`. -/
def unwantPieces (t : TorrentDownloadedState) (cancels : List (PeerAddr × BlockRequest))
    (l : List Nat) : TorrentDownloadedState × List (PeerAddr × BlockRequest) :=
  l.foldl (fun (t, cancels) i => t.unwantPiece cancels i) (t, cancels)

/-- No block of a skipped piece that is missing stays assigned. -/
lemma unwantPieces_spec : ∀ (l : List Nat) (t : TorrentDownloadedState)
    (cancels : List (PeerAddr × BlockRequest)),
    Sweeps t (t.unwantPieces cancels l).1 ∧
    ∀ i ∈ l, t.pieces[i]?.map PieceWorkState.downloaded = some false → t.wanted i = false →
      ∀ x ∈ (t.unwantPieces cancels l).1.blockAssignments, x.1.index ≠ i
  | [], t, cancels => ⟨.refl t, nofun⟩
  | j :: l, t, cancels => by
    have hone := unwantPiece_sweeps t cancels j
    obtain ⟨hsweeps, hgone⟩ :=
      unwantPieces_spec l (t.unwantPiece cancels j).1 (t.unwantPiece cancels j).2
    refine ⟨hone.trans hsweeps, fun i hi hmiss hskip x hx => ?_⟩
    rcases mem_cons.1 hi with rfl | hi
    · obtain ⟨pw, hpw, hmiss⟩ := map_eq_some_iff.1 hmiss
      have hx' := hsweeps.entries x hx
      simp only [unwantPiece, hpw, hskip, hmiss, Bool.or_self, Bool.false_eq_true, if_false] at hx'
      simpa using (mem_filter.1 hx').2
    · exact hgone i hi ((hone.downloaded i).trans hmiss) ((hone.wanted i).trans hskip) x hx

variable {b : BlockRequest} {prios : List FilePriority}

lemma applyFilePriorities_gone
    (hmiss : t.pieces[b.index]?.map PieceWorkState.downloaded = some false)
    (hskip : (t.applyFilePriorities prios).1.wanted b.index = false) :
    (t.applyFilePriorities prios).1.requestersOf b = [] := by
  obtain ⟨t₀, hpieces, heq⟩ : ∃ t₀ : TorrentDownloadedState, t₀.pieces = t.pieces ∧
      t.applyFilePriorities prios = t₀.unwantPieces [] (List.range t.pieces.length) :=
    ⟨recomputePiecePriority { t with filePriorities := _ }, rfl, rfl⟩
  obtain ⟨hsweeps, hgone⟩ := unwantPieces_spec (range t.pieces.length) t₀ []
  rw [heq] at hskip ⊢
  refine requestersOf_of_not_mem fun e he => ?_
  have hrange : b.index ∈ range t.pieces.length := by
    obtain ⟨pw, hpw, -⟩ := map_eq_some_iff.1 hmiss
    exact mem_range.2 (List.getElem?_eq_some_iff.1 hpw).1
  rw [← hpieces] at hmiss
  exact hgone b.index hrange hmiss ((hsweeps.wanted _).symm.trans hskip) _ he rfl

end

end BitRev.TorrentDownloadedState
